/-
# Scenes that can be written

Hydration checks nothing about how the nodes of a scene refer to each other,
while `serialize` follows three relations without a guard: from a node to its
parent, from a node to the children it lists, and from a connection to its two
ends.  `GodotScene.Writable` says what these relations have to satisfy, and it
is exact: a call of `serialize` comes back precisely on writable scenes,
whatever order it iterates the maps in.
-/

import Backstitch.Library.Reach
import Backstitch.Parser.Hydrate
import Backstitch.Parser.Outline

namespace Backstitch

open Relation

namespace GodotScene

variable (scene : GodotScene)

/-! ## What a scene has to satisfy -/

/-- A path walk goes on from a node to its parent, unless the node says by what
path it hangs elsewhere or the parent is the root. -/
def PathStep (child parent : NodeId) : Prop :=
  ∃ node, scene.nodes.lookup child = some node ∧ node.parentPathFallback = none ∧
    node.parentId = some parent ∧ parent ≠ scene.rootIdOrUnassigned

/-- `serialize_node` goes on from a node to the children it lists and that exist. -/
def ChildStep (parent child : NodeId) : Prop :=
  ∃ node, scene.nodes.lookup parent = some node ∧ child ∈ node.childNodeIds ∧
    child ∈ scene.nodes

/-- Every node on the way up exists, and none of them is its own ancestor. -/
def HasPath (nodeId : NodeId) : Prop :=
  nodeId = scene.rootIdOrUnassigned ∨
    ∀ ancestor, ReflTransGen scene.PathStep nodeId ancestor →
      ancestor ∈ scene.nodes ∧ ¬ TransGen scene.PathStep ancestor ancestor

/-- The `parent` attribute of this node can be written. -/
def ParentWritable (key : NodeId) : Prop :=
  ∀ node parentId, scene.nodes.lookup key = some node → node.parentId = some parentId →
    scene.rootNodeId = some parentId ∨ node.parentPathFallback ≠ none ∨
      scene.HasPath parentId

/-- Below an existing root every node's parent can be written, and none is listed
below itself. -/
def TreeWritable : Prop :=
  ∀ rootNodeId, scene.rootNodeId = some rootNodeId → rootNodeId ∈ scene.nodes →
    ∀ descendant, ReflTransGen scene.ChildStep rootNodeId descendant →
      scene.ParentWritable descendant ∧ ¬ TransGen scene.ChildStep descendant descendant

/-- A scene with a main resource, or one whose tree and connections can be
followed to their ends. -/
def Writable : Prop :=
  scene.mainResource ≠ none ∨
    scene.TreeWritable ∧ ∀ key connection, scene.connections.lookup key = some connection →
      scene.HasPath connection.fromNodeId ∧ scene.HasPath connection.toNodeId

/-! ## Path walks -/

variable {scene}

theorem pathStep_of_lookup {child : NodeId} {node : GodotNode}
    (hnode : scene.nodes.lookup child = some node) {parent : NodeId} :
    scene.PathStep child parent ↔ node.parentPathFallback = none ∧
      node.parentId = some parent ∧ parent ≠ scene.rootIdOrUnassigned := by
  constructor
  · rintro ⟨found, hfound, hrest⟩
    cases hnode.symm.trans hfound
    exact hrest
  · intro hrest
    exact ⟨node, hnode, hrest⟩

theorem childStep_of_lookup {parent : NodeId} {node : GodotNode}
    (hnode : scene.nodes.lookup parent = some node) {child : NodeId} :
    scene.ChildStep parent child ↔ child ∈ node.childNodeIds ∧ child ∈ scene.nodes := by
  constructor
  · rintro ⟨found, hfound, hrest⟩
    cases hnode.symm.trans hfound
    exact hrest
  · intro hrest
    exact ⟨node, hnode, hrest⟩

/-- One round of the loop: it needs the node, and it either ends there or goes
on to the parent with a longer path. -/
theorem getNodePathLoop_succ {id : NodeId} {node : GodotNode}
    (hnode : scene.nodes.lookup id = some node) (path : String) :
    (∃ text, (∀ parent, ¬ scene.PathStep id parent) ∧
        ∀ fuel, scene.getNodePathLoop (fuel + 1) path id = .done text) ∨
      ∃ parent longer, (∀ other, scene.PathStep id other ↔ other = parent) ∧
        ∀ fuel, scene.getNodePathLoop (fuel + 1) path id =
          scene.getNodePathLoop fuel longer parent := by
  simp only [pathStep_of_lookup hnode, getNodePathLoop, hnode]
  cases hfallback : node.parentPathFallback with
  | some parentPath =>
      left
      simp only [reduceCtorEq, false_and, not_false_eq_true, implies_true, true_and]
      split
      · exact ⟨_, fun _ => rfl⟩
      · exact ⟨_, fun _ => rfl⟩
  | none =>
      cases hparent : node.parentId with
      | none => exact .inl ⟨_, by simp, fun _ => rfl⟩
      | some parentId =>
          by_cases hroot : parentId = scene.rootIdOrUnassigned
          · simp only [if_pos hroot]
            refine .inl ⟨_, ?_, fun _ => rfl⟩
            rintro other ⟨-, hother, hne⟩
            cases hother
            exact hne hroot
          · simp only [if_neg hroot]
            refine .inr ⟨parentId, _, fun other => ?_, fun _ => rfl⟩
            constructor
            · rintro ⟨-, hother, -⟩
              exact (Option.some.inj hother).symm
            · rintro rfl
              exact ⟨trivial, rfl, hroot⟩

theorem getNodePathLoop_of_not_mem {id : NodeId} (hnode : id ∉ scene.nodes) (fuel : ℕ)
    (path text : String) : scene.getNodePathLoop fuel path id ≠ .done text := by
  rw [← Finmap.lookup_eq_none] at hnode
  cases fuel with
  | zero => exact nofun
  | succ fuel => simp [getNodePathLoop, hnode]

/-- The loop comes back exactly when the walk up the parents does. -/
theorem exists_getNodePathLoop_iff {id : NodeId} (path : String) :
    (∃ fuel text, scene.getNodePathLoop fuel path id = .done text) ↔
      Completes scene.PathStep (· ∈ scene.nodes) id := by
  constructor
  · rintro ⟨fuel, text, hdone⟩
    induction fuel generalizing path id with
    | zero => nomatch hdone
    | succ fuel ih =>
        by_cases hmem : id ∈ scene.nodes
        swap
        · exact absurd hdone (getNodePathLoop_of_not_mem hmem _ _ _)
        obtain ⟨node, hnode⟩ := Finmap.mem_iff.mp hmem
        refine .intro hmem fun next hstep => ?_
        rcases getNodePathLoop_succ hnode path with ⟨_, hlast, _⟩ | ⟨parent, longer, hnext, hloop⟩
        · exact absurd hstep (hlast next)
        · rw [(hnext next).mp hstep]
          exact ih longer ((hloop fuel).symm.trans hdone)
  · intro hcompletes
    induction hcompletes generalizing path with
    | intro hmem _ ih =>
        obtain ⟨node, hnode⟩ := Finmap.mem_iff.mp hmem
        rcases getNodePathLoop_succ hnode path with ⟨text, _, hloop⟩ | ⟨parent, longer, hnext, hloop⟩
        · exact ⟨1, text, hloop 0⟩
        · obtain ⟨fuel, text, hdone⟩ := ih parent ((hnext parent).mpr rfl) longer
          exact ⟨fuel + 1, text, (hloop fuel).trans hdone⟩

/-- A walk up the parents stays among the parents that nodes name. -/
theorem finite_pathStep (id : NodeId) :
    {ancestor | ReflTransGen scene.PathStep id ancestor}.Finite := by
  let parents : Finset NodeId :=
    scene.nodes.keys.biUnion fun child =>
      ((scene.nodes.lookup child).bind GodotNode.parentId).toFinset
  refine ((insert id parents).finite_toSet).subset ?_
  intro ancestor hreach
  rcases ReflTransGen.cases_tail hreach with rfl | ⟨child, _, node, hnode, _, hparent, _⟩
  · simp
  · refine Finset.mem_coe.mpr (Finset.mem_insert_of_mem (Finset.mem_biUnion.mpr ⟨child, ?_, ?_⟩))
    · exact Finmap.mem_keys.mpr (Finmap.mem_of_lookup_eq_some hnode)
    · simp [hnode, hparent]

/-- **`get_node_path` comes back exactly for nodes that have a path.** -/
theorem exists_getNodePath_iff {id : NodeId} :
    (∃ fuel text, scene.getNodePath fuel id = .done text) ↔ scene.HasPath id := by
  by_cases hroot : id = scene.rootIdOrUnassigned
  · exact iff_of_true ⟨0, ".", by simp [getNodePath, hroot]⟩ (.inl hroot)
  · unfold getNodePath HasPath
    rw [← completes_iff (finite_pathStep id), ← exists_getNodePathLoop_iff ""]
    rw [or_iff_right hroot]
    simp only [if_neg hroot]

/-! ## The tree -/

theorem exists_nodeAttributes_iff {key : NodeId} {node : GodotNode}
    (hnode : scene.nodes.lookup key = some node) :
    (∃ fuel attributes, scene.nodeAttributes fuel node = .done attributes) ↔
      scene.ParentWritable key := by
  have hkey : scene.ParentWritable key ↔ ∀ parentId, node.parentId = some parentId →
      ∃ fuel text, scene.parentName fuel node parentId = .done text := by
    constructor
    · intro hwritable parentId hparent
      have hcases := hwritable node parentId hnode hparent
      unfold parentName
      by_cases hroot : scene.rootNodeId = some parentId
      · exact ⟨0, ".", if_pos hroot⟩
      · simp only [if_neg hroot]
        cases hfallback : node.parentPathFallback with
        | some parentPath => exact ⟨0, parentPath, rfl⟩
        | none =>
            simp only [hroot, hfallback, ne_eq, not_true_eq_false, false_or] at hcases
            exact exists_getNodePath_iff.mpr hcases
    · intro hnames found parentId hfound hparent
      cases hnode.symm.trans hfound
      obtain ⟨fuel, text, hdone⟩ := hnames parentId hparent
      unfold parentName at hdone
      by_cases hroot : scene.rootNodeId = some parentId
      · exact .inl hroot
      · rw [if_neg hroot] at hdone
        cases hfallback : node.parentPathFallback with
        | some parentPath => exact .inr (.inl (by simp))
        | none =>
            rw [hfallback] at hdone
            exact .inr (.inr (exists_getNodePath_iff.mp ⟨fuel, text, hdone⟩))
  rw [hkey]
  unfold nodeAttributes parentAttributes
  cases hparent : node.parentId with
  | none => simp
  | some parentId =>
      simp only [Run.bind_eq_done_iff, Option.some.injEq, forall_eq']
      constructor
      · rintro ⟨fuel, _, _, ⟨text, hdone, _⟩, _⟩
        exact ⟨fuel, text, hdone⟩
      · rintro ⟨fuel, text, hdone⟩
        exact ⟨fuel, _, _, ⟨text, hdone, rfl⟩, rfl⟩

/-- The recursion over the child lists comes back exactly when the walk does. -/
theorem exists_visits_iff {key : NodeId} {node : GodotNode}
    (hnode : scene.nodes.lookup key = some node) :
    (∃ fuel visits, scene.visits fuel key node = .done visits) ↔
      Completes scene.ChildStep scene.ParentWritable key := by
  constructor
  · rintro ⟨fuel, visits, hdone⟩
    induction fuel generalizing key node visits with
    | zero => nomatch hdone
    | succ fuel ih =>
        obtain ⟨attributes, below, hattributes, hbelow, -⟩ :=
          scene.visits_succ_eq_done_iff.mp hdone
        refine .intro ((exists_nodeAttributes_iff hnode).mp ⟨fuel, attributes, hattributes⟩) ?_
        intro childId hstep
        obtain ⟨hlisted, hmem⟩ := (childStep_of_lookup hnode).mp hstep
        obtain ⟨child, hchild⟩ := Finmap.mem_iff.mp hmem
        obtain ⟨found, -, hvisits⟩ := Run.exists_of_mapM_done hbelow hlisted
        simp only [childVisits, hchild] at hvisits
        exact ih hchild found hvisits
  · intro hcompletes
    induction hcompletes generalizing node with
    | @intro key hparent _ ih =>
        obtain ⟨fuel, attributes, hattributes⟩ := (exists_nodeAttributes_iff hnode).mpr hparent
        have hchildren : ∀ childId ∈ node.childNodeIds,
            ∃ fuel visits, scene.childVisits fuel childId = .done visits := by
          intro childId hlisted
          unfold childVisits
          cases hchild : scene.nodes.lookup childId with
          | none => exact ⟨0, [], rfl⟩
          | some child =>
              have hstep := (childStep_of_lookup hnode).mpr
                ⟨hlisted, Finmap.mem_of_lookup_eq_some hchild⟩
              exact ih childId hstep hchild
        obtain ⟨more, below, hbelow⟩ := Run.exists_mapM_done hchildren
          fun _ _ _ _ => scene.childVisits_mono
        refine ⟨max fuel more + 1, _, scene.visits_succ_eq_done_iff.mpr
          ⟨attributes, below, ?_, ?_, rfl⟩⟩
        · exact scene.nodeAttributes_mono hattributes (Nat.le_max_left ..)
        · exact Run.mapM_done_mono hbelow fun _ _ _ hdone =>
            scene.childVisits_mono hdone (Nat.le_max_right ..)

/-- The recursion only ever goes to nodes that exist. -/
theorem finite_childStep (key : NodeId) :
    {descendant | ReflTransGen scene.ChildStep key descendant}.Finite := by
  refine ((insert key scene.nodes.keys).finite_toSet).subset ?_
  intro descendant hreach
  rcases ReflTransGen.cases_tail hreach with rfl | ⟨_, _, _, _, _, hmem⟩
  · simp
  · exact Finset.mem_coe.mpr (Finset.mem_insert_of_mem (Finmap.mem_keys.mpr hmem))

/-- **The nodes are written out exactly when the tree can be.** -/
theorem exists_rootVisits_iff :
    (∃ fuel visits, scene.rootVisits fuel = .done visits) ↔ scene.TreeWritable := by
  unfold rootVisits TreeWritable
  cases hroot : scene.rootNodeId with
  | none => simp
  | some rootNodeId =>
      cases hnode : scene.nodes.lookup rootNodeId with
      | none =>
          have habsent : rootNodeId ∉ scene.nodes := Finmap.lookup_eq_none.mp hnode
          simp [habsent, hnode]
      | some rootNode =>
          have hpresent : rootNodeId ∈ scene.nodes := Finmap.mem_of_lookup_eq_some hnode
          simp only [hnode, exists_visits_iff hnode, completes_iff (finite_childStep rootNodeId),
            Option.some.injEq, forall_eq', hpresent, forall_const]

/-! ## Connections and the whole text -/

theorem exists_connectionText_iff {connection : GodotConnection} :
    (∃ fuel text, scene.connectionText fuel connection = .done text) ↔
      scene.HasPath connection.fromNodeId ∧ scene.HasPath connection.toNodeId := by
  rw [← exists_getNodePath_iff, ← exists_getNodePath_iff]
  constructor
  · rintro ⟨fuel, text, hdone⟩
    obtain ⟨fromPath, toPath, hfrom, hto, -⟩ := scene.connectionText_eq_done_iff.mp hdone
    exact ⟨⟨fuel, fromPath, hfrom⟩, ⟨fuel, toPath, hto⟩⟩
  · rintro ⟨⟨fuel, fromPath, hfrom⟩, ⟨more, toPath, hto⟩⟩
    refine ⟨max fuel more, _, scene.connectionText_eq_done_iff.mpr
      ⟨fromPath, toPath, ?_, ?_, rfl⟩⟩
    · exact scene.getNodePath_mono hfrom (Nat.le_max_left ..)
    · exact scene.getNodePath_mono hto (Nat.le_max_right ..)

/-- The entries that are written are those of the map. -/
theorem mem_sortedConnections {orders : IterationOrders} (horders : orders.Of scene)
    {visits : List Visit} {entry : Entry String GodotConnection} :
    entry ∈ sortedConnections orders visits ↔
      scene.connections.lookup entry.1 = some entry.2 :=
  (sortByKey_perm _ _).mem_iff.trans horders.connections.mem_iff

/-- One call of `serialize` comes back exactly on a writable scene. -/
theorem exists_serializes_iff {orders : IterationOrders} (horders : orders.Of scene) :
    (∃ text, scene.Serializes orders text) ↔ scene.Writable := by
  unfold Serializes Writable
  cases hmain : scene.mainResource with
  | some resource =>
      exact iff_of_true ⟨_, 0, scene.serialize_of_mainResource hmain orders 0⟩ (.inl nofun)
  | none =>
      simp only [ne_eq, not_true_eq_false, false_or, ← exists_rootVisits_iff,
        ← exists_connectionText_iff, scene.serialize_eq_done_iff hmain]
      constructor
      · rintro ⟨text, fuel, visits, texts, hvisits, htexts, -⟩
        refine ⟨⟨fuel, visits, hvisits⟩, fun key connection hlookup => ?_⟩
        have hmem : ⟨key, connection⟩ ∈ sortedConnections orders visits :=
          (mem_sortedConnections horders).mpr hlookup
        obtain ⟨connectionText, -, hconnection⟩ := Run.exists_of_mapM_done htexts hmem
        exact ⟨fuel, connectionText, hconnection⟩
      · rintro ⟨⟨fuel, visits, hvisits⟩, hconnections⟩
        have hentries : ∀ entry ∈ sortedConnections orders visits,
            ∃ fuel text, scene.connectionText fuel entry.2 = .done text :=
          fun entry hentry => hconnections _ _ ((mem_sortedConnections horders).mp hentry)
        obtain ⟨more, texts, htexts⟩ := Run.exists_mapM_done hentries
          fun _ _ _ _ => scene.connectionText_mono
        refine ⟨_, max fuel more, visits, texts, ?_, ?_, rfl⟩
        · exact scene.rootVisits_mono hvisits (Nat.le_max_left ..)
        · exact Run.mapM_done_mono htexts fun _ _ _ hdone =>
            scene.connectionText_mono hdone (Nat.le_max_right ..)

variable (scene)

/-- **`serialize` comes back exactly on writable scenes.** -/
theorem serialize_returns_iff :
    (∀ orders : IterationOrders, orders.Of scene → ∃ text, scene.Serializes orders text) ↔
      scene.Writable := by
  constructor
  · intro hreturns
    obtain ⟨orders, horders⟩ := IterationOrders.exists_of scene
    exact (exists_serializes_iff horders).mp (hreturns orders horders)
  · intro hwritable orders horders
    exact (exists_serializes_iff horders).mpr hwritable

end GodotScene

/-- The nodes after one client moved `A` under `B` and another `B` under `A`. -/
def crossedEntries : List (Entry String GodotNode) :=
  [⟨"1", .bare ⟨1, none⟩ "Root" none []⟩,
    ⟨"2", .bare ⟨2, none⟩ "A" (some ⟨3, none⟩) [⟨3, none⟩]⟩,
    ⟨"3", .bare ⟨3, none⟩ "B" (some ⟨2, none⟩) [⟨2, none⟩]⟩]

/-- The two moves in a scene that connects `A` with `B`. -/
def crossedMoves : StoredScene where
  loadSteps := 0
  format := 3
  uid := "uid://scene"
  scriptClass := none
  resourceType := "PackedScene"
  rootNodeId := some ⟨1, none⟩
  extResources := ∅
  subResources := ∅
  connections := HashMap.collect [⟨"moved-2-3-stop----[]",
    { signal := "moved", fromNodeId := ⟨2, none⟩, toNodeId := ⟨3, none⟩, method := "stop"
      flags := none, fromUidPath := none, toUidPath := none, unbinds := none, binds := none }⟩]
  editableInstances := []
  mainResource := none
  nodes := HashMap.collect crossedEntries

/-- Hydration accepts the crossed moves, and no call of `serialize` comes back. -/
theorem crossedMoves_not_written :
    ∃ scene, crossedMoves.HydratesTo scene ∧
      ∀ orders : IterationOrders, orders.Of scene → ¬ ∃ text, scene.Serializes orders text := by
  obtain ⟨nodes, hcollect, hhydrate, hkeys, hmoved, hother⟩ :
      ∃ nodes, collectNodes crossedEntries = .done nodes ∧
        hydrateNodes 1 crossedEntries [⟨1, none⟩, ⟨2, none⟩, ⟨3, none⟩] = .done nodes ∧
        nodes.keys = [⟨1, none⟩, ⟨2, none⟩, ⟨3, none⟩].toFinset ∧
        nodes.lookup ⟨2, none⟩ =
          some (.bare ⟨2, none⟩ "A" (some ⟨3, none⟩) [⟨3, none⟩]) ∧
        nodes.lookup ⟨3, none⟩ =
          some (.bare ⟨3, none⟩ "B" (some ⟨2, none⟩) [⟨2, none⟩]) :=
    ⟨_, rfl, by decide, by decide, by decide, by decide⟩
  let scene : GodotScene := ⟨crossedMoves.toSceneFields, nodes⟩
  have hroot : scene.rootIdOrUnassigned = ⟨1, none⟩ := rfl
  refine ⟨scene, ⟨1, crossedEntries, [⟨1, none⟩, ⟨2, none⟩, ⟨3, none⟩], ?_, ?_, ?_⟩, ?_⟩
  · exact HashMap.iterates_collect (by decide)
  · exact visitsKeys_of_keys_eq hcollect (by decide) hkeys
  · rw [StoredScene.hydrate, hhydrate, Run.done_bind]
    rfl
  · intro orders horders
    rw [GodotScene.exists_serializes_iff horders]
    rintro (hmain | ⟨-, hconnections⟩)
    · exact hmain rfl
    · obtain ⟨connection, hconnection, hfrom⟩ : ∃ connection,
          scene.connections.lookup "moved-2-3-stop----[]" = some connection ∧
            connection.fromNodeId = ⟨2, none⟩ := ⟨_, rfl, rfl⟩
      have hpath : scene.HasPath ⟨2, none⟩ := hfrom ▸ (hconnections _ _ hconnection).1
      have hup : scene.PathStep ⟨2, none⟩ ⟨3, none⟩ := ⟨_, hmoved, rfl, rfl, by rw [hroot]; decide⟩
      have hdown : scene.PathStep ⟨3, none⟩ ⟨2, none⟩ := ⟨_, hother, rfl, rfl, by rw [hroot]; decide⟩
      rcases hpath with hself | hpath
      · exact absurd (hself.trans hroot) (by decide)
      · exact (hpath _ .refl).2 (.tail (.single hup) hdown)

end Backstitch
