/-
# Paths of parsed nodes

`parse_scene` indexes every node under the path that its section spells out, and turns the path
into links between nodes, or keeps it where the parent lies inside an instanced scene.
`get_node_path` goes the other way.  Below a root it arrives at the path that the node was
indexed under, so that connections are written back as they were read.
-/

import Backstitch.Parser.ConnectionKeys
import Backstitch.Parser.Outline

namespace Backstitch

namespace NodeState

/-! ## Where a node hangs -/

/-- How a node keeps the parent path of its section: it is the root, or it has the path, or a
link to the node at that path. -/
inductive Hangs (paths : HashMap String NodeId) (root : Option NodeId) (id : NodeId)
    (node : GodotNode) : Option String → Prop
  | atRoot (hroot : root = some id) (hparent : node.parentId = none)
      (hfallback : node.parentPathFallback = none) : Hangs paths root id node none
  | byPath {parentPath : String} (hfallback : node.parentPathFallback = some parentPath) :
      Hangs paths root id node (some parentPath)
  | byLink {parentPath : String} {parentId : NodeId} (hfallback : node.parentPathFallback = none)
      (hparent : node.parentId = some parentId)
      (hindexed : paths.lookup parentPath = some parentId) :
      Hangs paths root id node (some parentPath)

/-- A node that was placed for this section. -/
structure PlacedFor (state : NodeState) (id : NodeId) (node : GodotNode)
    (input : GodotNode × Option String) : Prop where
  lookup : state.nodes.lookup id = some node
  name : node.name = input.1.name
  hangs : Hangs state.nodeIdByNodePath state.rootNodeId id node input.2

/-- The index of the nodes placed for these sections. -/
structure Indexes (inputs : List (GodotNode × Option String)) (state : NodeState) : Prop where
  placedFor : ∀ path id, state.nodeIdByNodePath.lookup path = some id →
    ∃ input ∈ inputs, sectionPath input = path ∧ ∃ node, state.PlacedFor id node input
  indexed : ∀ id ∈ state.nodes, ∃ path, state.nodeIdByNodePath.lookup path = some id
  rooted : ∀ input ∈ inputs, input.2 = none →
    ∃ root, state.rootNodeId = some root ∧ state.nodeIdByNodePath.lookup "." = some root

variable {state : NodeState}

/-- The first node on the way up stays the parent. -/
theorem instancesAbove_of_parent {paths : List String} {first : NodeId} {above : List Int32}
    {result : Option NodeId × List Int32}
    (hdone : state.instancesAbove paths (some first) above = .done result) :
    result.1 = some first := by
  induction paths generalizing above with
  | nil =>
      cases hdone
      rfl
  | cons path paths ih =>
      unfold instancesAbove at hdone
      split at hdone
      · nomatch hdone
      · split at hdone
        · exact ih hdone
        · dsimp only at hdone
          split at hdone
          · cases hdone
            rfl
          · split at hdone
            · exact ih hdone
            · exact ih hdone

theorem ancestorPaths_eq_cons {path : String} (hpath : path ≠ "") :
    ∃ above, ancestorPaths path = path :: above := by
  have hlength : path.toList.length ≠ 0 := by simpa using hpath
  obtain ⟨count, hcount⟩ := Nat.exists_eq_succ_of_ne_zero hlength
  rw [ancestorPaths, hcount, Nat.succ_eq_add_one, pathsUp, if_neg hpath]
  exact ⟨_, rfl⟩

/-- The walk up starts with the node at the path itself. -/
theorem instancesAbove_parent {parentPath : String} {result : Option NodeId × List Int32}
    (hindex : ∀ path id, state.nodeIdByNodePath.lookup path = some id → id ∈ state.nodes)
    (hpath : parentPath ≠ "")
    (hdone : state.instancesAbove (ancestorPaths parentPath) none [] = .done result) :
    ∃ parentId, state.nodeIdByNodePath.lookup parentPath = some parentId ∧
      result.1 = some parentId := by
  obtain ⟨above, habove⟩ := ancestorPaths_eq_cons hpath
  rw [habove] at hdone
  unfold instancesAbove at hdone
  split at hdone
  · nomatch hdone
  · rename_i parentId hparent
    refine ⟨parentId, hparent, ?_⟩
    split at hdone
    · rename_i hmissing
      obtain ⟨parent, hlookup⟩ := Finmap.mem_iff.mp (hindex parentPath parentId hparent)
      nomatch hmissing.symm.trans hlookup
    · dsimp only at hdone
      split at hdone
      · cases hdone
        rfl
      · split at hdone
        · exact instancesAbove_of_parent hdone
        · exact instancesAbove_of_parent hdone

/-- A placed node hangs where its section says, and keeps its name. -/
theorem placeNode_hangs {node placed : GodotNode} {root : Option NodeId}
    (hindex : ∀ path id, state.nodeIdByNodePath.lookup path = some id → id ∈ state.nodes)
    (hparent : node.parentId = none) (hdone : state.placeNode node = .done placed)
    (hroot : node.parentPathFallback = none → root = some placed.id) :
    placed.name = node.name ∧
      Hangs state.nodeIdByNodePath root placed.id placed node.parentPathFallback := by
  have hunchanged : ∀ result : GodotNode, result.parentId = none →
      result.parentPathFallback = node.parentPathFallback →
      (node.parentPathFallback = none → root = some result.id) →
      Hangs state.nodeIdByNodePath root result.id result node.parentPathFallback := by
    intro result hnone hsame hroot
    cases hfallback : node.parentPathFallback with
    | none => exact .atRoot (hroot hfallback) hnone (hsame.trans hfallback)
    | some parentPath => exact .byPath (hsame.trans hfallback)
  unfold placeNode at hdone
  split at hdone
  swap
  · cases hdone
    exact ⟨rfl, hunchanged node hparent rfl hroot⟩
  unfold qualifyNode at hdone
  dsimp only at hdone
  split at hdone
  · rename_i hdot
    cases hdone
    refine ⟨rfl, ?_⟩
    cases hfallback : node.parentPathFallback with
    | none => simp [hfallback] at hdot
    | some parentPath => exact .byPath rfl
  · split at hdone
    · cases hdone
      exact ⟨rfl, hunchanged _ rfl rfl hroot⟩
    · split at hdone
      swap
      · nomatch hdone
      rename_i hpath
      obtain ⟨⟨parentId, above⟩, hwalk, hresult⟩ := Run.bind_eq_done_iff.mp hdone
      obtain ⟨found, hfound, hfirst⟩ := instancesAbove_parent hindex hpath hwalk
      cases hfallback : node.parentPathFallback with
      | none => simp [hfallback] at hpath
      | some parentPath =>
          rw [hfallback, Option.getD_some] at hfound hresult
          rw [if_pos (Finmap.mem_of_lookup_eq_some hfound)] at hresult
          cases hresult
          exact ⟨rfl, .byLink rfl hfirst hfound⟩

/-! ## The index -/

theorem Hangs.mono {paths more : HashMap String NodeId} {root newRoot : Option NodeId} {id : NodeId}
    {node : GodotNode} {parentPath : Option String} (hhangs : Hangs paths root id node parentPath)
    (hpaths : ∀ path id, paths.lookup path = some id → more.lookup path = some id)
    (hroot : parentPath = none → newRoot = root) : Hangs more newRoot id node parentPath := by
  cases hhangs with
  | atRoot hself hparent hfallback => exact .atRoot ((hroot rfl).trans hself) hparent hfallback
  | byPath hfallback => exact .byPath hfallback
  | byLink hfallback hparent hindexed =>
      exact .byLink hfallback hparent (hpaths _ _ hindexed)

theorem Indexes.empty (parsedNodeIds : Finset NodeId) :
    Indexes [] ({ parsedNodeIds := parsedNodeIds } : NodeState) where
  placedFor := by simp
  indexed := by simp [Finmap.notMem_empty]
  rooted := by simp

/-- One round places one more node. -/
theorem Indexes.addNode {env : ParseEnv} {fuel : ℕ} {next : NodeState}
    {inputs : List (GodotNode × Option String)} {input : GodotNode × Option String}
    (hstate : state.Indexes inputs) (hdone : state.addNode env fuel input = .done next)
    (hparent : input.1.parentId = none) (hfallback : input.1.parentPathFallback = input.2)
    (hfresh : sectionPath input ∉ inputs.map sectionPath) : next.Indexes (inputs ++ [input]) := by
  obtain ⟨node, parentPath⟩ := input
  dsimp only at hparent hfallback
  simp only [NodeState.addNode, Run.bind_eq_done_iff] at hdone
  obtain ⟨⟨nodeId, assigned⟩, hassigned, placed, hplaced, hresult⟩ := hdone
  obtain ⟨hnodes, -, hpaths, hroots⟩ := assignNodeId_eq hassigned
  split at hresult
  · cases hresult
  rename_i hfree
  rw [hnodes] at hfree
  have hfreePath : state.nodeIdByNodePath.lookup (indexedPath parentPath node.name) = none := by
    by_contra hsome
    obtain ⟨id, hid⟩ := Option.ne_none_iff_exists'.mp hsome
    obtain ⟨other, hother, hsame, -⟩ := hstate.placedFor _ _ hid
    exact hfresh (List.mem_map.mpr ⟨other, hother, hsame⟩)
  have hindex : ∀ path id, assigned.nodeIdByNodePath.lookup path = some id →
      id ∈ assigned.nodes := by
    intro path id hid
    rw [hpaths] at hid
    obtain ⟨_, _, _, found, hfound⟩ := hstate.placedFor path id hid
    rw [hnodes]
    exact Finmap.mem_of_lookup_eq_some hfound.lookup
  obtain ⟨hname, hhangs⟩ : placed.name = node.name ∧ Hangs state.nodeIdByNodePath
      (if parentPath = none then some placed.id else state.rootNodeId) placed.id placed
      parentPath := by
    rw [← hpaths]
    subst hfallback
    exact @placeNode_hangs assigned { node with id := nodeId } placed _ hindex hparent hplaced
      fun hnone => if_pos hnone
  have hkeepPaths : ∀ path id, state.nodeIdByNodePath.lookup path = some id →
      (state.nodeIdByNodePath.insert (indexedPath parentPath placed.name) placed.id).lookup path =
        some id := by
    intro path id hid
    rw [Finmap.lookup_insert_of_ne, hid]
    rintro rfl
    rw [hname, hfreePath] at hid
    cases hid
  have hkeepRoot : ∀ other ∈ inputs, other.2 = none → parentPath ≠ none := by
    rintro other hother hnone rfl
    refine hfresh (List.mem_map.mpr ⟨other, hother, ?_⟩)
    rw [sectionPath, sectionPath, hnone]
    rfl
  cases hresult
  constructor
  · intro path id hid
    dsimp only at hid
    rw [hpaths] at hid
    by_cases heq : path = indexedPath parentPath placed.name
    · subst heq
      rw [Finmap.lookup_insert] at hid
      cases hid
      refine ⟨(node, parentPath), by simp, by rw [sectionPath, hname], placed, ?_, hname, ?_⟩
      · exact Finmap.lookup_insert _
      · dsimp only
        rw [hpaths, hroots]
        exact hhangs.mono hkeepPaths fun _ => rfl
    · rw [Finmap.lookup_insert_of_ne _ heq] at hid
      obtain ⟨other, hother, hsame, found, hlookup, hfoundName, hfound⟩ :=
        hstate.placedFor path id hid
      refine ⟨other, by simp [hother], hsame, found, ?_, hfoundName, ?_⟩
      · dsimp only
        rw [hnodes, Finmap.lookup_insert_of_ne, hlookup]
        rintro rfl
        exact hfree (Finmap.mem_of_lookup_eq_some hlookup)
      · dsimp only
        rw [hpaths, hroots]
        exact hfound.mono hkeepPaths fun hnone => if_neg (hkeepRoot other hother hnone)
  · intro id hid
    dsimp only at hid ⊢
    rw [hnodes] at hid
    rw [hpaths]
    rcases Finmap.mem_insert.mp hid with rfl | hold
    · exact ⟨_, Finmap.lookup_insert _⟩
    · obtain ⟨path, hpath⟩ := hstate.indexed id hold
      exact ⟨path, hkeepPaths path id hpath⟩
  · intro other hother hnone
    dsimp only
    rw [hpaths, hroots]
    rcases List.mem_append.mp hother with hold | hnew
    · obtain ⟨root, hroot, hdot⟩ := hstate.rooted other hold hnone
      rw [if_neg (hkeepRoot other hold hnone)]
      exact ⟨root, hroot, hkeepPaths _ _ hdot⟩
    · obtain rfl := List.mem_singleton.mp hnew
      obtain rfl : parentPath = none := hnone
      exact ⟨placed.id, if_pos rfl, Finmap.lookup_insert _⟩

end NodeState

section Parse

open NodeState

variable {env : ParseEnv} {sections : List Section} {read : SectionState} {placed : NodeState}
  {scene : GodotScene}

/-- Nodes with distinct paths are indexed each under its own. -/
theorem PlacesNodes.indexes (hplaces : PlacesNodes env sections read placed)
    (hdistinct : (read.nodeArr.map sectionPath).Nodup) : placed.Indexes read.nodeArr := by
  obtain ⟨hread, fuel, hplaces⟩ := hplaces
  apply Run.foldlM_prefix_induct hplaces (Indexes.empty read.parsedNodeIds)
  intro before input after state next hinputs hstate hround
  obtain ⟨-, hparent, hfallback, -⟩ := fields_of_mem_nodeArr hread
    (hinputs ▸ List.mem_append_right before List.mem_cons_self)
  apply hstate.addNode hround hparent hfallback
  rw [hinputs, List.map_append, List.map_cons] at hdistinct
  intro hmem
  exact (List.nodup_append.mp hdistinct).2.2 _ hmem _ List.mem_cons_self rfl

/-! ## The way up -/

/-- A node of the scene under the path it was indexed by. -/
structure LiesAt (scene : GodotScene) (placed : NodeState) (id : NodeId)
    (input : GodotNode × Option String) (node : GodotNode) : Prop where
  lookup : scene.nodes.lookup id = some node
  name : node.name = input.1.name
  hangs : Hangs placed.nodeIdByNodePath scene.rootNodeId id node input.2

/-- Finding the parents leaves every node where it hangs. -/
theorem NodeState.Hangs.of_findParent {paths : HashMap String NodeId} {root : Option NodeId}
    {id : NodeId} {node linked : GodotNode} {parentPath : Option String}
    (hhangs : Hangs paths root id node parentPath)
    (hdone : findParent paths node = .done linked) :
    linked.name = node.name ∧ Hangs paths root id linked parentPath := by
  unfold findParent at hdone
  split at hdone
  · rename_i path hnone hpath
    cases hhangs with
    | atRoot _ _ hfallback => nomatch hfallback.symm.trans hpath
    | byLink hfallback _ _ => nomatch hfallback.symm.trans hpath
    | byPath hfallback =>
        obtain rfl := Option.some.inj (hpath.symm.trans hfallback)
        split at hdone
        · rename_i parentId hindexed
          cases hdone
          exact ⟨rfl, .byLink rfl rfl hindexed⟩
        · split at hdone
          · cases hdone
            exact ⟨rfl, .byPath hfallback⟩
          · nomatch hdone
  · cases hdone
    exact ⟨rfl, hhangs⟩

theorem NodeState.Hangs.withChildren {paths : HashMap String NodeId} {root : Option NodeId}
    {id : NodeId} {node : GodotNode} {parentPath : Option String}
    (hhangs : Hangs paths root id node parentPath) (children : List NodeId) :
    Hangs paths root id (node.withChildren children) parentPath := by
  cases hhangs with
  | atRoot hself hparent hfallback => exact .atRoot hself hparent hfallback
  | byPath hfallback => exact .byPath hfallback
  | byLink hfallback hparent hindexed => exact .byLink hfallback hparent hindexed

theorem LinkedFrom.liesAt (hlinked : LinkedFrom placed scene) {id : NodeId} {node : GodotNode}
    {input : GodotNode × Option String} (hplaced : placed.PlacedFor id node input) :
    ∃ node, LiesAt scene placed id input node := by
  obtain ⟨hname, hhangs⟩ := Hangs.of_findParent hplaced.hangs
    (hlinked.found id node hplaced.lookup)
  obtain ⟨children, hchildren⟩ : ∃ children, scene.nodes.lookup id =
      some ((linkedNode placed.nodeIdByNodePath node).withChildren children) :=
    ⟨_, by rw [hlinked.lookup, hplaced.lookup, Option.map_some]⟩
  refine ⟨_, hchildren, hname.trans hplaced.name, ?_⟩
  rw [hlinked.rootNodeId]
  exact hhangs.withChildren children

/-- What a walk up from a node with this path returns, below what it has already passed. -/
def joinPath (path below : String) : String := if below = "" then path else path ++ "/" ++ below

/-- The node sections have distinct full paths and names that are not empty. -/
structure WellNamed (read : SectionState) : Prop where
  distinct : (read.nodeArr.map sectionPath).Nodup
  named : ∀ input ∈ read.nodeArr, input.1.name ≠ ""

/-- One of the node sections, if there are any, is that of a root. -/
def Rooted (read : SectionState) : Prop :=
  read.nodeArr ≠ [] → ∃ input ∈ read.nodeArr, input.2 = none

/-- Every node of the scene, found by the path it was indexed under. -/
structure Locates (read : SectionState) (placed : NodeState) (scene : GodotScene)
    (root : NodeId) : Prop where
  rootNodeId : scene.rootNodeId = some root
  atDot : placed.nodeIdByNodePath.lookup "." = some root
  dot_of_root : ∀ path, placed.nodeIdByNodePath.lookup path = some root → path = "."
  liesAt : ∀ path id, placed.nodeIdByNodePath.lookup path = some id →
    ∃ input ∈ read.nodeArr, sectionPath input = path ∧ ∃ node, LiesAt scene placed id input node

theorem PlacesNodes.exists_locates (hplaces : PlacesNodes env sections read placed)
    (hparse : ParsesTo env sections scene) (hnames : WellNamed read)
    {rootInput : GodotNode × Option String} (hinput : rootInput ∈ read.nodeArr)
    (hroot : rootInput.2 = none) : ∃ root, Locates read placed scene root := by
  have hindexes := hplaces.indexes hnames.distinct
  have hlinked := hplaces.linkedFrom hparse
  obtain ⟨root, hrootId, hdot⟩ := hindexes.rooted rootInput hinput hroot
  have hscene : scene.rootNodeId = some root := hlinked.rootNodeId.trans hrootId
  have hliesAt : ∀ path id, placed.nodeIdByNodePath.lookup path = some id →
      ∃ input ∈ read.nodeArr, sectionPath input = path ∧
        ∃ node, LiesAt scene placed id input node := by
    intro path id hid
    obtain ⟨input, hmem, hpath, node, hplaced⟩ := hindexes.placedFor path id hid
    exact ⟨input, hmem, hpath, hlinked.liesAt hplaced⟩
  refine ⟨root, hscene, hdot, fun path hpath => ?_, hliesAt⟩
  obtain ⟨input, hmem, hsame, node, hnode⟩ := hliesAt "." root hdot
  have hself : input = rootInput := by
    apply List.inj_on_of_nodup_map hnames.distinct hmem hinput
    rw [hsame, sectionPath, hroot]
    rfl
  obtain ⟨other, -, hother, found, hfound⟩ := hliesAt path root hpath
  obtain rfl := Option.some.inj (hnode.lookup.symm.trans hfound.lookup)
  -- The root has neither a parent nor a path to one, so no other section can have placed it.
  have hhangs := hnode.hangs
  rw [hself, hroot] at hhangs
  cases hhangs with
  | atRoot _ hparent hfallback =>
      rw [← hother, sectionPath]
      have hfoundHangs := hfound.hangs
      generalize other.2 = parentPath at hfoundHangs ⊢
      cases hfoundHangs with
      | atRoot _ _ _ => rfl
      | byPath hsome => nomatch hfallback.symm.trans hsome
      | byLink _ hsome _ => nomatch hparent.symm.trans hsome

theorem joinPath_name (name below : String) :
    (if below = "" then name else name ++ "/" ++ below) = joinPath name below := rfl

theorem joinPath_ne_empty {path : String} (hpath : path ≠ "") (below : String) :
    joinPath path below ≠ "" := by
  unfold joinPath
  split
  · exact hpath
  · simp [String.append_eq_empty_iff]

theorem joinPath_of_ne_empty {path below : String} (hbelow : below ≠ "") :
    joinPath path below = path ++ "/" ++ below := if_neg hbelow

theorem joinPath_joinPath {path name : String} (hname : name ≠ "") (below : String) :
    joinPath path (joinPath name below) = joinPath (path ++ "/" ++ name) below := by
  rw [joinPath_of_ne_empty (joinPath_ne_empty hname below), joinPath, joinPath]
  split
  · rfl
  · simp only [String.append_assoc]

/-- The walk up from a node puts its whole path in front. -/
theorem Locates.exists_getNodePathLoop {root : NodeId} (hlocates : Locates read placed scene root)
    (hnames : WellNamed read) {path : String} {id : NodeId}
    (hid : placed.nodeIdByNodePath.lookup path = some id) (hne : id ≠ root) (below : String) :
    ∃ fuel, scene.getNodePathLoop fuel below id = .done (joinPath path below) := by
  induction hlength : path.length using Nat.strongRecOn generalizing path id below with
  | ind length ih =>
      obtain ⟨input, hmem, hpath, node, hlookup, hname, hhangs⟩ := hlocates.liesAt path id hid
      have hnamed : node.name ≠ "" := hname ▸ hnames.named input hmem
      have hrootId : scene.rootIdOrUnassigned = root := by
        rw [GodotScene.rootIdOrUnassigned, hlocates.rootNodeId, Option.getD_some]
      rw [sectionPath, ← hname] at hpath
      generalize input.2 = inputParent at hhangs hpath
      cases hhangs with
      | atRoot hself _ _ =>
          exact absurd (Option.some.inj (hself.symm.trans hlocates.rootNodeId)) hne
      | @byPath parentPath hfallback =>
          refine ⟨1, ?_⟩
          simp only [GodotScene.getNodePathLoop, hlookup, hfallback, joinPath_name]
          by_cases hdot : parentPath = "."
          · rw [if_pos hdot, ← hpath, indexedPath, if_pos hdot]
          · rw [if_neg hdot, ← hpath, indexedPath, if_neg hdot, ← joinPath_joinPath hnamed,
              joinPath_of_ne_empty (joinPath_ne_empty hnamed below)]
      | @byLink parentPath parentId hfallback hparent hindexed =>
          by_cases hroot : parentId = root
          · subst hroot
            refine ⟨1, ?_⟩
            simp only [GodotScene.getNodePathLoop, hlookup, hfallback, hparent, hrootId,
              joinPath_name]
            rw [if_pos trivial, ← hpath, indexedPath, if_pos (hlocates.dot_of_root _ hindexed)]
          · have hdot : parentPath ≠ "." := by
              rintro rfl
              exact hroot (Option.some.inj (hindexed.symm.trans hlocates.atDot))
            rw [indexedPath, if_neg hdot] at hpath
            have hshorter : parentPath.length < length := by
              rw [← hlength, ← hpath]
              simp only [String.length_append]
              have hslash : "/".length = 1 := rfl
              omega
            obtain ⟨fuel, hdone⟩ := ih parentPath.length hshorter hindexed hroot
              (joinPath node.name below) rfl
            refine ⟨fuel + 1, ?_⟩
            simp only [GodotScene.getNodePathLoop, hlookup, hfallback, hparent, hrootId,
              joinPath_name]
            rw [if_neg hroot, hdone, joinPath_joinPath hnamed, hpath]

/-! ## Every path is found again -/

/-- Every node is indexed under the path of its section, `get_node_path` returns the path that
a node was indexed under, and every connection is written with the paths it was read with. -/
structure PathsAgree (read : SectionState) (placed : NodeState) (scene : GodotScene) : Prop where
  indexed : ∀ id node, scene.nodes.lookup id = some node → ∃ input ∈ read.nodeArr,
    node.name = input.1.name ∧ placed.nodeIdByNodePath.lookup (sectionPath input) = some id
  written : ∀ path id, placed.nodeIdByNodePath.lookup path = some id →
    ∃ fuel, scene.getNodePath fuel id = .done path
  connected : ∀ key connection, scene.connections.lookup key = some connection →
    ∃ input ∈ read.connectionsArr,
      foundConnection placed.nodeIdByNodePath input = some connection ∧
        ∃ fuel, scene.connectionAttributes fuel connection =
          .done (GodotScene.connectionAttributesWith connection input.1 input.2.1)

theorem Locates.exists_getNodePath {root : NodeId} (hlocates : Locates read placed scene root)
    (hnames : WellNamed read) {path : String} {id : NodeId}
    (hid : placed.nodeIdByNodePath.lookup path = some id) :
    ∃ fuel, scene.getNodePath fuel id = .done path := by
  unfold GodotScene.getNodePath
  rw [GodotScene.rootIdOrUnassigned, hlocates.rootNodeId, Option.getD_some]
  by_cases hroot : id = root
  · subst hroot
    exact ⟨0, by rw [if_pos rfl, hlocates.dot_of_root path hid]⟩
  · obtain ⟨fuel, hdone⟩ := hlocates.exists_getNodePathLoop hnames hid hroot ""
    refine ⟨fuel, ?_⟩
    rw [if_neg hroot, hdone]
    rfl

/-- **Below a root, node paths agree with the index of the parser.** -/
theorem ParsesTo.pathsAgree (hparse : ParsesTo env sections scene)
    (hplaces : PlacesNodes env sections read placed) (hnames : WellNamed read)
    (hrooted : Rooted read) : PathsAgree read placed scene := by
  have hindexes := hplaces.indexes hnames.distinct
  have hlinked := hplaces.linkedFrom hparse
  have hwritten : ∀ path id, placed.nodeIdByNodePath.lookup path = some id →
      ∃ fuel, scene.getNodePath fuel id = .done path := by
    intro path id hid
    obtain ⟨input, hmem, -⟩ := hindexes.placedFor path id hid
    obtain ⟨rootInput, hrootInput, hroot⟩ := hrooted (List.ne_nil_of_mem hmem)
    obtain ⟨root, hlocates⟩ := hplaces.exists_locates hparse hnames hrootInput hroot
    exact hlocates.exists_getNodePath hnames hid
  constructor
  · intro id node hnode
    obtain ⟨path, hpath⟩ := hindexes.indexed id
      ((hlinked.mem_iff id).mp (Finmap.mem_of_lookup_eq_some hnode))
    obtain ⟨input, hmem, rfl, found, hfound⟩ := hindexes.placedFor path id hpath
    obtain ⟨linked, hlies⟩ := hlinked.liesAt hfound
    obtain rfl := Option.some.inj (hnode.symm.trans hlies.lookup)
    exact ⟨input, hmem, hlies.name, hpath⟩
  · exact hwritten
  · intro key connection hconnection
    obtain ⟨otherRead, otherPlaced, hother, input, hmem, hfound⟩ := hparse.foundIn hconnection
    obtain ⟨rfl, rfl⟩ := hplaces.unique hother
    obtain ⟨hfrom, hto⟩ := lookup_of_foundConnection hfound
    obtain ⟨fuel, hfromPath⟩ := hwritten _ _ hfrom
    obtain ⟨more, htoPath⟩ := hwritten _ _ hto
    refine ⟨input, hmem, hfound, max fuel more, ?_⟩
    rw [GodotScene.connectionAttributes,
      scene.getNodePath_mono hfromPath (Nat.le_max_left fuel more), Run.done_bind,
      scene.getNodePath_mono htoPath (Nat.le_max_right fuel more), Run.done_bind]
    rfl

end Parse

/-! ## With and without a root -/

/-- A root, an instance below it, a node inside the instance and a connection between them. -/
def nestedSections : List Section :=
  [⟨"gd_scene", [("format", "3"), ("uid", "\"uid://nested\"")], []⟩,
    ⟨"node", [("name", "\"Root\""), ("type", "\"Node\""), ("unique_id", "1")], []⟩,
    ⟨"node", [("name", "\"Inst\""), ("parent", "\".\""), ("unique_id", "2"),
      ("instance", "ExtResource(\"1\")")], []⟩,
    ⟨"node", [("name", "\"Leaf\""), ("parent", "\"Inst/Inner\""),
      ("parent_id_path", "PackedInt32Array(2, 9)"), ("unique_id", "3")], []⟩,
    ⟨"connection", [("signal", "\"ready\""), ("from", "\"Inst/Inner/Leaf\""), ("to", "\".\""),
      ("method", "\"start\"")], []⟩]

theorem pathsAgree_nestedSections : ∃ read placed scene,
    ParsesTo ⟨fun _ => 7, fun _ => ""⟩ nestedSections scene ∧ Rooted read ∧ WellNamed read ∧
      PathsAgree read placed scene := by
  obtain ⟨read, placed, scene, hread, hplaced, hscene, hpaths, hnames, hroot⟩ :
      ∃ read placed scene,
        nestedSections.foldlM SectionState.readSection {} = .done read ∧
        read.nodeArr.foldlM
          (fun state input => state.addNode ⟨fun _ => 7, fun _ => ""⟩ 1 input)
          ({ parsedNodeIds := read.parsedNodeIds } : NodeState) = .done placed ∧
        parseScene ⟨fun _ => 7, fun _ => ""⟩ 1 nestedSections = .done scene ∧
        read.nodeArr.map NodeState.sectionPath = [".", "Inst", "Inst/Inner/Leaf"] ∧
        read.nodeArr.map (fun input => input.1.name) = ["Root", "Inst", "Leaf"] ∧
        ∃ input ∈ read.nodeArr, input.2 = none :=
    ⟨_, _, _, rfl, rfl, rfl, rfl, rfl, _, List.mem_cons_self, rfl⟩
  have hwellNamed : WellNamed read := by
    constructor
    · rw [hpaths]
      decide
    · intro input hinput
      have hname := List.mem_map_of_mem (f := fun input => input.1.name) hinput
      rw [hnames] at hname
      rintro heq
      rw [heq] at hname
      exact absurd hname (by decide)
  refine ⟨read, placed, scene, ⟨1, hscene⟩, fun _ => hroot, hwellNamed, ?_⟩
  exact ParsesTo.pathsAgree ⟨1, hscene⟩ ⟨hread, 1, hplaced⟩ hwellNamed fun _ => hroot

/-- One node called `.`, and no root. -/
def dotSections : List Section :=
  [⟨"gd_scene", [("format", "3"), ("uid", "\"uid://dot\"")], []⟩,
    ⟨"node", [("name", "\".\""), ("type", "\"Node\""), ("parent", "\".\""),
      ("unique_id", "5")], []⟩]

/-- A walk up from a node that is its own parent never ends. -/
theorem getNodePathLoop_eq_running {scene : GodotScene} {id : NodeId} {node : GodotNode}
    (hnode : scene.nodes.lookup id = some node) (hfallback : node.parentPathFallback = none)
    (hparent : node.parentId = some id) (hroot : id ≠ scene.rootIdOrUnassigned) (fuel : ℕ)
    (below : String) : scene.getNodePathLoop fuel below id = .running := by
  induction fuel generalizing below with
  | zero => rfl
  | succ fuel ih =>
      simp only [GodotScene.getNodePathLoop, hnode, hfallback, hparent]
      rw [if_neg hroot]
      exact ih _

/-- **Without a root, a node can be its own parent, and has no path.** -/
theorem not_pathsAgree_dotSections : ∃ read placed scene,
    ParsesTo ⟨fun _ => 7, fun _ => ""⟩ dotSections scene ∧
      PlacesNodes ⟨fun _ => 7, fun _ => ""⟩ dotSections read placed ∧ WellNamed read ∧
      ¬ PathsAgree read placed scene := by
  obtain ⟨read, placed, scene, hread, hplaced, hscene, hpaths, hnames, hindexed, node, hnode,
      hfallback, hparent, hroot⟩ :
      ∃ read placed scene,
        dotSections.foldlM SectionState.readSection {} = .done read ∧
        read.nodeArr.foldlM
          (fun state input => state.addNode ⟨fun _ => 7, fun _ => ""⟩ 1 input)
          ({ parsedNodeIds := read.parsedNodeIds } : NodeState) = .done placed ∧
        parseScene ⟨fun _ => 7, fun _ => ""⟩ 1 dotSections = .done scene ∧
        read.nodeArr.map NodeState.sectionPath = ["."] ∧
        (∀ input ∈ read.nodeArr, input.1.name ≠ "") ∧
        placed.nodeIdByNodePath.lookup "." = some ⟨5, none⟩ ∧
        ∃ node, scene.nodes.lookup ⟨5, none⟩ = some node ∧ node.parentPathFallback = none ∧
          node.parentId = some ⟨5, none⟩ ∧ ⟨5, none⟩ ≠ scene.rootIdOrUnassigned :=
    ⟨_, _, _, rfl, rfl, rfl, rfl, by decide, rfl, _, rfl, rfl, rfl, by decide⟩
  refine ⟨read, placed, scene, ⟨1, hscene⟩, ⟨hread, 1, hplaced⟩, ⟨?_, hnames⟩, ?_⟩
  · rw [hpaths]
    decide
  · intro hagree
    obtain ⟨fuel, hdone⟩ := hagree.written "." _ hindexed
    rw [GodotScene.getNodePath, if_neg hroot,
      getNodePathLoop_eq_running hnode hfallback hparent hroot] at hdone
    nomatch hdone

end Backstitch
