/-
# The tree that a text gives

`parse_scene` finds the parent of every node and appends the node to the child
list of that parent, once.  The scenes it returns therefore keep parents and
child lists in step, whatever the text says.
-/

import Backstitch.Parser.Parse

namespace Backstitch

/-- A node is listed once by its parent and by nobody else. -/
def TreeConsistent (nodes : HashMap NodeId GodotNode) : Prop :=
  ∀ id node parentId parent, nodes.lookup id = some node →
    nodes.lookup parentId = some parent →
    parent.childNodeIds.count id = if node.parentId = some parentId then 1 else 0

/-! ## Reading the sections -/

theorem SectionState.nodeIdOf_rootInstanceId (input : Section) :
    (nodeIdOf input).rootInstanceId = none := by
  unfold nodeIdOf
  split
  · rfl
  · rfl

/-- The sections add nodes without parent or children to the list, one at most. -/
theorem SectionState.readSection_nodeArr {state next : SectionState} {input : Section}
    (hdone : state.readSection input = .done next) :
    next.nodeArr = state.nodeArr ∨ ∃ node parentPath,
      next.nodeArr = state.nodeArr ++ [(node, parentPath)] ∧ node.childNodeIds = [] ∧
        node.parentId = none ∧ node.parentPathFallback = parentPath ∧
        node.id.rootInstanceId = none := by
  unfold readSection at hdone
  split at hdone
  · simp only [readResourceHeader, Run.bind_eq_done_iff, Run.pure_eq_done, Run.done.injEq] at hdone
    obtain ⟨_, _, _, _, _, _, _, _, rfl⟩ := hdone
    exact .inl rfl
  split at hdone
  · cases hdone
    exact .inl rfl
  split at hdone
  · simp only [readSceneHeader, Run.bind_eq_done_iff, Run.pure_eq_done, Run.done.injEq] at hdone
    obtain ⟨_, _, _, _, rfl⟩ := hdone
    exact .inl rfl
  split at hdone
  · simp only [readNode, Run.bind_eq_done_iff, Run.pure_eq_done, Run.done.injEq] at hdone
    obtain ⟨_, _, _, _, _, _, _, _, _, _, _, _, _, _, _, _, _, _, rfl⟩ := hdone
    refine .inr ⟨_, _, rfl, rfl, rfl, rfl, ?_⟩
    dsimp only
    split
    · rfl
    · exact nodeIdOf_rootInstanceId input
  split at hdone
  · simp only [readExtResource, Run.bind_eq_done_iff, Run.pure_eq_done, Run.done.injEq] at hdone
    obtain ⟨_, _, _, _, _, _, _, _, rfl⟩ := hdone
    exact .inl rfl
  split at hdone
  · simp only [readSubResource, Run.bind_eq_done_iff, Run.pure_eq_done, Run.done.injEq] at hdone
    obtain ⟨_, _, _, _, rfl⟩ := hdone
    exact .inl rfl
  split at hdone
  · simp only [readConnection, Run.bind_eq_done_iff, Run.pure_eq_done, Run.done.injEq] at hdone
    obtain ⟨_, _, _, _, _, _, _, _, _, _, _, _, _, _, rfl⟩ := hdone
    exact .inl rfl
  split at hdone
  · simp only [readEditable, Run.bind_eq_done_iff, Run.pure_eq_done, Run.done.injEq] at hdone
    obtain ⟨_, _, rfl⟩ := hdone
    exact .inl rfl
  · cases hdone
    exact .inl rfl

/-- The nodes that were read have neither children nor a parent yet, only the path of
a parent, and no qualified id. -/
theorem fields_of_mem_nodeArr {sections : List Section} {read : SectionState}
    (hdone : sections.foldlM SectionState.readSection {} = .done read)
    {input : GodotNode × Option String} (hinput : input ∈ read.nodeArr) :
    input.1.childNodeIds = [] ∧ input.1.parentId = none ∧
      input.1.parentPathFallback = input.2 ∧ input.1.id.rootInstanceId = none := by
  have hall : ∀ input ∈ read.nodeArr, input.1.childNodeIds = [] ∧ input.1.parentId = none ∧
      input.1.parentPathFallback = input.2 ∧ input.1.id.rootInstanceId = none := by
    apply Run.foldlM_induct hdone
    · simp
    · intro state item next _ hstate hnext
      rcases SectionState.readSection_nodeArr hnext with heq | ⟨node, path, heq, hnode⟩
      · rwa [heq]
      · rw [heq]
        intro other hother
        rcases List.mem_append.mp hother with hother | hother
        · exact hstate other hother
        · rw [List.mem_singleton.mp hother]
          exact hnode
  exact hall input hinput

/-- The nodes that were read have no children yet. -/
theorem childNodeIds_of_mem_nodeArr {sections : List Section} {read : SectionState}
    (hdone : sections.foldlM SectionState.readSection {} = .done read)
    {input : GodotNode × Option String} (hinput : input ∈ read.nodeArr) :
    input.1.childNodeIds = [] :=
  (fields_of_mem_nodeArr hdone hinput).1

/-! ## Placing the nodes -/

namespace NodeState

/-- The keys are those of the nodes, each once, the root is among them, and no node
has children. -/
structure Placed (state : NodeState) : Prop where
  nodup : state.keys.Nodup
  mem_iff : ∀ id, id ∈ state.keys ↔ id ∈ state.nodes
  root_mem : ∀ root, state.rootNodeId = some root → root ∈ state.nodes
  childNodeIds : ∀ id node, state.nodes.lookup id = some node → node.childNodeIds = []

/-- Qualifying an id leaves the children alone. -/
theorem qualifyNode_childNodeIds {state : NodeState} {node result : GodotNode}
    (hdone : state.qualifyNode node = .done result) :
    result.childNodeIds = node.childNodeIds := by
  unfold qualifyNode at hdone
  simp only at hdone
  split at hdone
  · cases hdone
    rfl
  · split at hdone
    · cases hdone
      rfl
    · split at hdone
      · obtain ⟨⟨parentId, parentIdPath⟩, -, hresult⟩ := Run.bind_eq_done_iff.mp hdone
        cases hresult
        split <;> rfl
      · nomatch hdone

theorem assignNodeId_eq {env : ParseEnv} {state next : NodeState} {fuel : ℕ}
    {nodeId result : NodeId} (hdone : state.assignNodeId env fuel nodeId = .done (result, next)) :
    next.nodes = state.nodes ∧ next.keys = state.keys ∧
      next.nodeIdByNodePath = state.nodeIdByNodePath ∧ next.rootNodeId = state.rootNodeId := by
  unfold assignNodeId at hdone
  split at hdone
  · obtain ⟨⟨drawn, draws⟩, -, hresult⟩ := Run.bind_eq_done_iff.mp hdone
    cases hresult
    exact ⟨rfl, rfl, rfl, rfl⟩
  · cases hdone
    exact ⟨rfl, rfl, rfl, rfl⟩

/-- One round adds one node under a key that was free. -/
theorem addNode_eq {env : ParseEnv} {state next : NodeState} {fuel : ℕ}
    {input : GodotNode × Option String} (hdone : state.addNode env fuel input = .done next) :
    ∃ node, node.id ∉ state.nodes ∧ next.nodes = state.nodes.insert node.id node ∧
      next.keys = state.keys ++ [node.id] ∧
      (next.rootNodeId = some node.id ∨ next.rootNodeId = state.rootNodeId) ∧
      node.childNodeIds = input.1.childNodeIds := by
  obtain ⟨node, parentPath⟩ := input
  simp only [addNode, Run.bind_eq_done_iff] at hdone
  obtain ⟨⟨nodeId, assigned⟩, hassigned, placed, hplaced, hresult⟩ := hdone
  obtain ⟨hnodes, hkeys, -, hroot⟩ := assignNodeId_eq hassigned
  have hchildren : placed.childNodeIds = node.childNodeIds := by
    unfold placeNode at hplaced
    split at hplaced
    · have hsame := qualifyNode_childNodeIds hplaced
      exact hsame
    · cases hplaced
      rfl
  split at hresult
  · nomatch hresult
  · rename_i hfree
    cases hresult
    refine ⟨placed, hnodes ▸ hfree, by simp only [hnodes], by simp only [hkeys], ?_, hchildren⟩
    by_cases hpath : parentPath = none
    · exact .inl (if_pos hpath)
    · exact .inr ((if_neg hpath).trans hroot)

/-- The loop over the nodes keeps its keys in step with its map. -/
theorem placed_of_foldlM {env : ParseEnv} {fuel : ℕ}
    {nodeArr : List (GodotNode × Option String)} {parsedNodeIds : Finset NodeId}
    {placed : NodeState}
    (hdone : nodeArr.foldlM (fun state input => state.addNode env fuel input)
      ({ parsedNodeIds := parsedNodeIds } : NodeState) = .done placed)
    (hchildren : ∀ input ∈ nodeArr, input.1.childNodeIds = []) : placed.Placed := by
  apply Run.foldlM_induct hdone
  · exact ⟨List.nodup_nil, fun id => by simp [Finmap.notMem_empty], by simp, by simp⟩
  · intro state input next hinput hstate hnext
    obtain ⟨node, hfree, hnodes, hkeys, hroot, hnode⟩ := addNode_eq hnext
    have hnew : node.id ∉ state.keys := fun hmem => hfree ((hstate.mem_iff _).mp hmem)
    refine ⟨?_, fun id => ?_, fun root heq => ?_, fun id found hfound => ?_⟩
    · rw [hkeys]
      exact List.nodup_append.mpr ⟨hstate.nodup, List.nodup_singleton _, by
        intro id hid other hother heq
        rw [List.mem_singleton.mp hother] at heq
        exact hnew (heq ▸ hid)⟩
    · rw [hkeys, hnodes, List.mem_append, List.mem_singleton, Finmap.mem_insert, hstate.mem_iff]
      exact or_comm
    · rw [hnodes, Finmap.mem_insert]
      rcases hroot with hself | hold
      · exact .inl (Option.some.inj (heq.symm.trans hself))
      · exact .inr (hstate.root_mem root (hold.symm.trans heq))
    · rw [hnodes] at hfound
      by_cases heq : id = node.id
      · rw [heq, Finmap.lookup_insert] at hfound
        cases hfound
        rw [hnode]
        exact hchildren input hinput
      · rw [Finmap.lookup_insert_of_ne _ heq] at hfound
        exact hstate.childNodeIds id found hfound

end NodeState

/-! ## Linking children to parents -/

section Link

variable {nodeIdByNodePath : HashMap String NodeId} {nodes next : HashMap NodeId GodotNode}
  {uid : NodeId}

theorem findParent_childNodeIds {node result : GodotNode}
    (hdone : findParent nodeIdByNodePath node = .done result) :
    result.childNodeIds = node.childNodeIds := by
  unfold findParent at hdone
  split at hdone
  · split at hdone
    · cases hdone
      rfl
    · split at hdone
      · cases hdone
        rfl
      · nomatch hdone
  · cases hdone
    rfl

/-- One round gives its node a parent and appends it to the children of that
parent, and changes nothing else. -/
theorem linkNode_lookup (hdone : linkNode nodeIdByNodePath nodes uid = .done next) :
    ∃ node linked, nodes.lookup uid = some node ∧
      findParent nodeIdByNodePath node = .done linked ∧
      ∀ id, next.lookup id =
        ((nodes.lookup id).map fun found => if id = uid then linked else found).map
          fun found => if linked.parentId = some id
            then { found with childNodeIds := found.childNodeIds ++ [uid] } else found := by
  unfold linkNode at hdone
  split at hdone
  · nomatch hdone
  · rename_i node hnode
    obtain ⟨linked, hlinked, hrest⟩ := Run.bind_eq_done_iff.mp hdone
    refine ⟨node, linked, hnode, hlinked, fun id => ?_⟩
    have hself : (nodes.insert uid linked).lookup id =
        (nodes.lookup id).map fun found => if id = uid then linked else found := by
      by_cases heq : id = uid
      · rw [heq, Finmap.lookup_insert, hnode]
        simp
      · rw [Finmap.lookup_insert_of_ne _ heq]
        simp [heq]
    rw [← hself]
    simp only at hrest
    split at hrest
    · rename_i hparent
      cases hrest
      simp [hparent]
    · rename_i parentId hparent
      split at hrest
      · rename_i parent hlookup
        cases hrest
        by_cases heq : id = parentId
        · rw [heq, Finmap.lookup_insert, hlookup]
          simp [hparent]
        · rw [Finmap.lookup_insert_of_ne _ heq]
          simp [hparent, Ne.symm heq]
      · nomatch hrest

/-- The nodes when only some keys have been linked: those, and no others, are
listed by their parents. -/
structure Linked (linked : List NodeId) (nodes : HashMap NodeId GodotNode) : Prop where
  count : ∀ id node parentId parent, nodes.lookup id = some node →
    nodes.lookup parentId = some parent →
    parent.childNodeIds.count id =
      if id ∈ linked ∧ node.parentId = some parentId then 1 else 0

/-- Linking one more node. -/
theorem Linked.linkNode {linked : List NodeId} (hlinked : Linked linked nodes)
    (hnew : uid ∉ linked) (hdone : linkNode nodeIdByNodePath nodes uid = .done next) :
    Linked (uid :: linked) next := by
  obtain ⟨node, result, hnode, hresult, hlookup⟩ := linkNode_lookup hdone
  constructor
  intro id found parentId parent hfound hparent
  rw [hlookup] at hfound hparent
  obtain ⟨before, hbefore, rfl⟩ := Option.map_eq_some_iff.mp hfound
  obtain ⟨original, horiginal, rfl⟩ := Option.map_eq_some_iff.mp hbefore
  obtain ⟨parentBefore, hparentBefore, rfl⟩ := Option.map_eq_some_iff.mp hparent
  obtain ⟨parentOriginal, hparentOriginal, rfl⟩ := Option.map_eq_some_iff.mp hparentBefore
  have hcount := hlinked.count id original parentId parentOriginal horiginal hparentOriginal
  have hchildren : (if parentId = uid then result else parentOriginal).childNodeIds =
      parentOriginal.childNodeIds := by
    split
    · rename_i heq
      subst heq
      cases hnode.symm.trans hparentOriginal
      exact findParent_childNodeIds hresult
    · rfl
  have hlist : (if result.parentId = some parentId then
        { (if parentId = uid then result else parentOriginal) with
          childNodeIds := (if parentId = uid then result else parentOriginal).childNodeIds ++
            [uid] }
      else if parentId = uid then result else parentOriginal).childNodeIds =
      parentOriginal.childNodeIds ++ if result.parentId = some parentId then [uid] else [] := by
    split
    · rw [hchildren]
    · rw [hchildren, List.append_nil]
  have hself : (if result.parentId = some id then
        { (if id = uid then result else original) with
          childNodeIds := (if id = uid then result else original).childNodeIds ++ [uid] }
      else if id = uid then result else original).parentId =
      if id = uid then result.parentId else original.parentId := by
    split <;> split <;> rfl
  rw [hlist, hself, List.count_append, hcount]
  by_cases heq : id = uid
  · subst heq
    by_cases hparentId : result.parentId = some parentId
    · simp [hnew, hparentId]
    · simp [hnew, hparentId]
  · have hother : ∀ condition : Prop, [Decidable condition] →
        (if condition then [uid] else []).count id = 0 := by
      intro condition _
      split
      · simp [Ne.symm heq]
      · rfl
    simp [heq, hother]

/-- Linking all keys lists every node with its parent. -/
theorem Linked.foldlM {keys linked : List NodeId} (hlinked : Linked linked nodes)
    (hkeys : keys.Nodup) (hnew : ∀ id ∈ keys, id ∉ linked)
    (hdone : keys.foldlM (Backstitch.linkNode nodeIdByNodePath) nodes = .done next) :
    Linked (keys.reverse ++ linked) next := by
  induction keys generalizing nodes linked with
  | nil =>
      cases hdone
      exact hlinked
  | cons uid keys ih =>
      obtain ⟨middle, hfirst, hrest⟩ := Run.foldlM_cons_eq_done_iff.mp hdone
      obtain ⟨honce, hkeys⟩ := List.nodup_cons.mp hkeys
      have hmiddle := hlinked.linkNode (hnew uid (by simp)) hfirst
      have hlater : ∀ id ∈ keys, id ∉ uid :: linked := by
        intro id hid hmem
        rcases List.mem_cons.mp hmem with rfl | hmem
        · exact honce hid
        · exact hnew id (List.mem_cons_of_mem _ hid) hmem
      have hall := ih hmiddle hkeys hlater hrest
      rwa [List.reverse_cons, List.append_assoc, List.singleton_append]

theorem linkNode_mem_iff (hdone : Backstitch.linkNode nodeIdByNodePath nodes uid = .done next)
    (id : NodeId) : id ∈ next ↔ id ∈ nodes := by
  obtain ⟨_, _, _, _, hlookup⟩ := linkNode_lookup hdone
  rw [← Finmap.lookup_isSome, hlookup, Option.isSome_map, Option.isSome_map,
    Finmap.lookup_isSome]

end Link

/-! ## The whole text -/

/-- What the four passes leave behind. -/
theorem parseScene_eq_done {env : ParseEnv} {fuel : ℕ} {sections : List Section}
    {scene : GodotScene} (hdone : parseScene env fuel sections = .done scene) :
    ∃ read placed, sections.foldlM SectionState.readSection {} = .done read ∧
      read.nodeArr.foldlM (fun state input => state.addNode env fuel input)
        ({ parsedNodeIds := read.parsedNodeIds } : NodeState) = .done placed ∧
      placed.keys.foldlM (linkNode placed.nodeIdByNodePath) placed.nodes =
        .done scene.nodes ∧
      scene.rootNodeId = placed.rootNodeId := by
  obtain ⟨read, hread, hrest⟩ := Run.bind_eq_done_iff.mp hdone
  obtain ⟨placed, hplaced, hrest⟩ := Run.bind_eq_done_iff.mp hrest
  obtain ⟨nodes, hnodes, hrest⟩ := Run.bind_eq_done_iff.mp hrest
  obtain ⟨connections, -, hrest⟩ := Run.bind_eq_done_iff.mp hrest
  refine ⟨read, placed, hread, hplaced, ?_⟩
  split at hrest
  · nomatch hrest
  · cases hrest
    exact ⟨hnodes, rfl⟩

section Parse

variable {env : ParseEnv} {sections : List Section} {scene : GodotScene}

/-- The nodes of a parsed scene are the linked ones of what was placed. -/
theorem ParsesTo.exists_placed (hparse : ParsesTo env sections scene) :
    ∃ placed : NodeState, placed.Placed ∧ scene.rootNodeId = placed.rootNodeId ∧
      placed.keys.foldlM (linkNode placed.nodeIdByNodePath) placed.nodes = .done scene.nodes ∧
      ∀ id, id ∈ scene.nodes ↔ id ∈ placed.nodes := by
  obtain ⟨fuel, hdone⟩ := hparse
  obtain ⟨read, placed, hread, hplaced, hlink, hroot⟩ := parseScene_eq_done hdone
  have hstate := NodeState.placed_of_foldlM hplaced fun input hinput =>
    childNodeIds_of_mem_nodeArr hread hinput
  refine ⟨placed, hstate, hroot, hlink, fun id => ?_⟩
  let invariant := fun state : HashMap NodeId GodotNode => id ∈ state ↔ id ∈ placed.nodes
  show invariant scene.nodes
  apply Run.foldlM_induct hlink
  · exact Iff.rfl
  · intro state uid next _ hbefore hnext
    exact (linkNode_mem_iff hnext id).trans hbefore

/-- The root of a parsed scene is one of its nodes. -/
theorem ParsesTo.root_mem (hparse : ParsesTo env sections scene) {root : NodeId}
    (hroot : scene.rootNodeId = some root) : root ∈ scene.nodes := by
  obtain ⟨placed, hstate, hsame, -, hmem⟩ := hparse.exists_placed
  exact (hmem root).mpr (hstate.root_mem root (hsame.symm.trans hroot))

/-- **A parsed scene keeps parents and child lists in step.** -/
theorem ParsesTo.treeConsistent (hparse : ParsesTo env sections scene) :
    TreeConsistent scene.nodes := by
  obtain ⟨placed, hstate, -, hlink, hmem⟩ := hparse.exists_placed
  have hstart : Linked [] placed.nodes := by
    constructor
    intro id node parentId parent _ hparent
    rw [hstate.childNodeIds parentId parent hparent]
    simp
  have hall := hstart.foldlM hstate.nodup (by simp) hlink
  intro id node parentId parent hnode hparent
  have hkey : id ∈ placed.keys :=
    (hstate.mem_iff id).mpr ((hmem id).mp (Finmap.mem_of_lookup_eq_some hnode))
  rw [hall.count id node parentId parent hnode hparent]
  simp [hkey]

end Parse

end Backstitch
