/-
# Does parsing end?

`parse_scene` answers a text that it does not like with an error.  Three things keep it from
answering at all: a malformed section, ids that are drawn over and over again, and the walk from
an edited node to the instances above it, which does not go on from a path that names no node.
-/

import Backstitch.Parser.ParsedNodes
import Backstitch.Parser.SectionReads

namespace Backstitch

/-! ## The loop over the nodes -/

namespace NodeState

variable (env : ParseEnv) (state : NodeState)

/-- If an id has to be drawn, some draw that is still to come is new. -/
def CanDraw (nodeId : NodeId) : Prop :=
  nodeId = .unassigned → ∃ later, state.draws ≤ later ∧
    (⟨Int32.ofNat (env.random later), none⟩ : NodeId) ∉ state.parsedNodeIds

/-- On the way along these paths comes one that names no node, and before it no node that
edits an instance itself. -/
def WalkStalls (paths : List String) : Prop :=
  ∃ below path above, paths = below ++ path :: above ∧ path ∉ state.nodeIdByNodePath ∧
    ∀ lower ∈ below, ∃ id, state.nodeIdByNodePath.lookup lower = some id ∧
      ∀ node, state.nodes.lookup id = some node → node.id.rootInstanceId = none

/-- A node that edits an instance, without the ids that lead there and not directly below the
root, and the walk up from it stalls. -/
def Stalls (node : GodotNode) : Prop :=
  node.typeOrInstance = none ∧ node.parentPathFallback.getD "" ≠ "." ∧
    node.parentIdPath.getD [] = [] ∧ node.parentPathFallback.getD "" ≠ "" ∧
    state.WalkStalls (ancestorPaths (node.parentPathFallback.getD ""))

variable {env state}

theorem exists_ends_drawNodeId_iff (draws : ℕ) :
    (∃ fuel, (state.drawNodeId env fuel draws).Ends) ↔ ∃ later, draws ≤ later ∧
      (⟨Int32.ofNat (env.random later), none⟩ : NodeId) ∉ state.parsedNodeIds := by
  constructor
  · rintro ⟨fuel, hends⟩
    induction fuel generalizing draws with
    | zero => exact absurd hends Run.not_ends_running
    | succ fuel ih =>
        rw [drawNodeId] at hends
        by_cases hused : (⟨Int32.ofNat (env.random draws), none⟩ : NodeId) ∈ state.parsedNodeIds
        · simp only [if_pos hused] at hends
          obtain ⟨later, hle, hnew⟩ := ih (draws + 1) hends
          exact ⟨later, by omega, hnew⟩
        · exact ⟨draws, le_rfl, hused⟩
  · rintro ⟨later, hle, hnew⟩
    obtain ⟨count, rfl⟩ := Nat.exists_eq_add_of_le hle
    induction count generalizing draws with
    | zero =>
        rw [Nat.add_zero] at hnew
        refine ⟨1, ?_⟩
        rw [drawNodeId]
        simp only [if_neg hnew]
        exact Run.ends_done _
    | succ count ih =>
        by_cases hused : (⟨Int32.ofNat (env.random draws), none⟩ : NodeId) ∈ state.parsedNodeIds
        · obtain ⟨fuel, hends⟩ := ih (draws + 1) (by omega)
            (by rwa [Nat.add_assoc, Nat.add_comm 1 count])
          refine ⟨fuel + 1, ?_⟩
          rw [drawNodeId]
          simp only [if_pos hused]
          exact hends
        · refine ⟨1, ?_⟩
          rw [drawNodeId]
          simp only [if_neg hused]
          exact Run.ends_done _

theorem exists_ends_assignNodeId_iff (nodeId : NodeId) :
    (∃ fuel, (state.assignNodeId env fuel nodeId).Ends) ↔ state.CanDraw env nodeId := by
  unfold assignNodeId CanDraw
  by_cases hunassigned : nodeId = .unassigned
  · subst hunassigned
    simp only [reduceIte, forall_const]
    rw [← exists_ends_drawNodeId_iff]
    refine exists_congr fun fuel => ?_
    rw [Run.ends_bind_iff]
    exact and_iff_left fun _ _ => Run.ends_done _
  · simp [hunassigned]

/-- Getting an id is no reason to refuse a scene. -/
theorem exists_done_assignNodeId {fuel : ℕ} {nodeId : NodeId}
    (hends : (state.assignNodeId env fuel nodeId).Ends) :
    ∃ assigned, state.assignNodeId env fuel nodeId = .done assigned := by
  have hdraw : ∀ fuel draws message, state.drawNodeId env fuel draws ≠ .fail message := by
    intro fuel
    induction fuel with
    | zero =>
        intro draws message hfails
        cases hfails
    | succ fuel ih =>
        intro draws message
        rw [drawNodeId]
        split
        · exact ih (draws + 1) message
        · intro hfails
          cases hfails
  rcases hends with hdone | ⟨message, hfail⟩
  · exact hdone
  · unfold assignNodeId at hfail
    split at hfail
    · cases hdrawn : state.drawNodeId env fuel state.draws with
      | done drawn => simp [hdrawn] at hfail
      | fail other => exact absurd hdrawn (hdraw fuel state.draws other)
      | panic => simp [hdrawn] at hfail
      | running => simp [hdrawn] at hfail
    · cases hfail

theorem walkStalls_cons_iff {path : String} {paths : List String} {id : NodeId}
    (hid : state.nodeIdByNodePath.lookup path = some id) :
    state.WalkStalls (path :: paths) ↔
      (∀ node, state.nodes.lookup id = some node → node.id.rootInstanceId = none) ∧
        state.WalkStalls paths := by
  constructor
  · rintro ⟨below, stalled, above, hpaths, hstalled, hbelow⟩
    cases below with
    | nil =>
        obtain ⟨rfl, -⟩ := List.cons.inj hpaths
        exact absurd (Finmap.mem_of_lookup_eq_some hid) hstalled
    | cons lower below =>
        obtain ⟨rfl, hrest⟩ := List.cons.inj hpaths
        obtain ⟨⟨found, hfound, hnode⟩, hbelow⟩ := List.forall_mem_cons.mp hbelow
        obtain rfl := Option.some.inj (hid.symm.trans hfound)
        exact ⟨hnode, below, stalled, above, hrest, hstalled, hbelow⟩
  · rintro ⟨hnode, below, stalled, above, rfl, hstalled, hbelow⟩
    exact ⟨path :: below, stalled, above, rfl, hstalled,
      List.forall_mem_cons.mpr ⟨⟨id, hid, hnode⟩, hbelow⟩⟩

/-- The walk up ends unless it stalls. -/
theorem instancesAbove_ends_iff {paths : List String} {parentId : Option NodeId}
    {above : List Int32} :
    (state.instancesAbove paths parentId above).Ends ↔ ¬ state.WalkStalls paths := by
  induction paths generalizing parentId above with
  | nil =>
      have hnone : ¬ state.WalkStalls [] := by simp [WalkStalls]
      simp [instancesAbove, hnone]
  | cons path paths ih =>
      unfold instancesAbove
      cases hid : state.nodeIdByNodePath.lookup path with
      | none =>
          have hstalls : state.WalkStalls (path :: paths) :=
            ⟨[], path, paths, rfl, Finmap.lookup_eq_none.mp hid, by simp⟩
          simp [hstalls]
      | some id =>
          rw [walkStalls_cons_iff hid]
          dsimp only
          cases hnode : state.nodes.lookup id with
          | none => simp [ih]
          | some node =>
              dsimp only
              cases hroot : node.id.rootInstanceId with
              | some rootInstanceId => simp [hroot]
              | none =>
                  have hnodes : ∀ found, some node = some found →
                      found.id.rootInstanceId = none := by
                    rintro found ⟨rfl⟩
                    exact hroot
                  rw [and_iff_right hnodes]
                  dsimp only
                  split
                  · exact ih
                  · exact ih

/-- **A node is placed, or refused, unless the walk up from it stalls.** -/
theorem placeNode_ends_iff {node : GodotNode} :
    (state.placeNode node).Ends ↔ ¬ state.Stalls node := by
  unfold placeNode qualifyNode Stalls
  dsimp only
  by_cases htype : node.typeOrInstance = none
  swap
  · simp [htype]
  rw [if_pos htype, and_iff_right htype]
  by_cases hdot : node.parentPathFallback.getD "" = "."
  · simp [hdot]
  rw [if_neg hdot, and_iff_right hdot]
  have hbyPath : ∀ {next : Option NodeId × List Int32 → GodotNode} {message : String},
      (if node.parentPathFallback.getD "" ≠ "" then
          state.instancesAbove (ancestorPaths (node.parentPathFallback.getD "")) none [] >>=
            fun above => pure (next above)
        else .fail message : Run GodotNode).Ends ↔
      ¬ (node.parentPathFallback.getD "" ≠ "" ∧
        state.WalkStalls (ancestorPaths (node.parentPathFallback.getD ""))) := by
    intro next message
    by_cases hempty : node.parentPathFallback.getD "" = ""
    · simp [hempty]
    · rw [if_pos hempty, and_iff_right hempty, Run.ends_bind_iff, instancesAbove_ends_iff]
      exact and_iff_left fun _ _ => Run.ends_done _
  cases hpath : node.parentIdPath with
  | none =>
      rw [Option.getD_none, and_iff_right rfl]
      exact hbyPath
  | some path =>
      cases path with
      | nil =>
          rw [Option.getD_some, and_iff_right rfl]
          exact hbyPath
      | cons id ids => simp

theorem stalls_congr {next : NodeState} (hnodes : next.nodes = state.nodes)
    (hpaths : next.nodeIdByNodePath = state.nodeIdByNodePath) (node : GodotNode) :
    next.Stalls node ↔ state.Stalls node := by
  simp only [Stalls, WalkStalls, hnodes, hpaths]

theorem exists_ends_addNode_iff {input : GodotNode × Option String} :
    (∃ fuel, (state.addNode env fuel input).Ends) ↔
      state.CanDraw env input.1.id ∧ ¬ state.Stalls input.1 := by
  obtain ⟨node, parentPath⟩ := input
  have hround : ∀ fuel, (state.addNode env fuel (node, parentPath)).Ends ↔
      (state.assignNodeId env fuel node.id).Ends ∧ ∀ nodeId assigned,
        state.assignNodeId env fuel node.id = .done (nodeId, assigned) →
          ¬ state.Stalls node := by
    intro fuel
    rw [addNode, Run.ends_bind_iff, Prod.forall]
    refine and_congr_right fun _ => forall_congr' fun nodeId => forall_congr' fun assigned =>
      forall_congr' fun hassigned => ?_
    obtain ⟨hnodes, -, hpaths, -⟩ := assignNodeId_eq hassigned
    rw [Run.ends_bind_iff, placeNode_ends_iff, stalls_congr hnodes hpaths]
    refine and_iff_left fun placed _ => ?_
    dsimp only
    split
    · exact Run.ends_fail _
    · exact Run.ends_done _
  simp only [hround]
  rw [← exists_ends_assignNodeId_iff]
  constructor
  · rintro ⟨fuel, hends, hplaces⟩
    obtain ⟨⟨nodeId, assigned⟩, hassigned⟩ := exists_done_assignNodeId hends
    exact ⟨⟨fuel, hends⟩, hplaces nodeId assigned hassigned⟩
  · rintro ⟨⟨fuel, hends⟩, hplaces⟩
    exact ⟨fuel, hends, fun _ _ _ => hplaces⟩

end NodeState

/-! ## The sections before a node -/

section Before

/-- The last of these sections that spells out this path. -/
def lastAt (before : List (GodotNode × Option String)) (path : String) :
    Option (GodotNode × Option String) :=
  before.reverse.find? fun input => decide (NodeState.sectionPath input = path)

/-- On the way along these paths comes one that no section has, and before it none of a node
that edits an instance itself. -/
def WalkStallsAfter (before : List (GodotNode × Option String)) (paths : List String) : Prop :=
  ∃ below path above, paths = below ++ path :: above ∧ lastAt before path = none ∧
    ∀ lower ∈ below, ∃ input, lastAt before lower = some input ∧ input.1.typeOrInstance ≠ none

/-- A node that edits an instance, without the ids that lead there and not directly below the
root, and the walk up from it stalls. -/
def StallsAfter (before : List (GodotNode × Option String)) (node : GodotNode) : Prop :=
  node.typeOrInstance = none ∧ node.parentPathFallback.getD "" ≠ "." ∧
    node.parentIdPath.getD [] = [] ∧ node.parentPathFallback.getD "" ≠ "" ∧
    WalkStallsAfter before (ancestorPaths (node.parentPathFallback.getD ""))

theorem lastAt_append (before : List (GodotNode × Option String))
    (input : GodotNode × Option String) (path : String) :
    lastAt (before ++ [input]) path =
      if NodeState.sectionPath input = path then some input else lastAt before path := by
  rw [lastAt, List.reverse_append, List.reverse_singleton, List.singleton_append,
    List.find?_cons]
  by_cases heq : NodeState.sectionPath input = path
  · simp [heq]
  · simp [heq, lastAt]

/-- What the index answers for a path, and whether the node there edits an instance. -/
inductive Answers (state : NodeState) (path : String) : Option (GodotNode × Option String) → Prop
  | missing (hpath : state.nodeIdByNodePath.lookup path = none) : Answers state path none
  | found {input : GodotNode × Option String} {id : NodeId} {node : GodotNode}
      (hpath : state.nodeIdByNodePath.lookup path = some id)
      (hnode : state.nodes.lookup id = some node)
      (htype : node.id.rootInstanceId = none ↔ input.1.typeOrInstance ≠ none) :
      Answers state path (some input)

/-- The index answers with the last section of each path. -/
def AnswersLast (before : List (GodotNode × Option String)) (state : NodeState) : Prop :=
  ∀ path, Answers state path (lastAt before path)

theorem AnswersLast.empty (parsedNodeIds : Finset NodeId) :
    AnswersLast [] ({ parsedNodeIds := parsedNodeIds } : NodeState) := fun _ =>
  .missing (Finmap.lookup_empty _)

theorem Answers.not_mem_iff {state : NodeState} {path : String}
    {answer : Option (GodotNode × Option String)} (hanswers : Answers state path answer) :
    path ∉ state.nodeIdByNodePath ↔ answer = none := by
  rw [← Finmap.lookup_eq_none]
  cases hanswers with
  | missing hpath => simp [hpath]
  | found hpath _ _ => simp [hpath]

theorem Answers.edits_iff {state : NodeState} {path : String}
    {answer : Option (GodotNode × Option String)} (hanswers : Answers state path answer) :
    (∃ id, state.nodeIdByNodePath.lookup path = some id ∧
        ∀ node, state.nodes.lookup id = some node → node.id.rootInstanceId = none) ↔
      ∃ input, answer = some input ∧ input.1.typeOrInstance ≠ none := by
  cases hanswers with
  | missing hpath => simp [hpath]
  | @found input id node hpath hnode htype =>
      constructor
      · rintro ⟨found, hfound, hall⟩
        obtain rfl := Option.some.inj (hpath.symm.trans hfound)
        exact ⟨input, rfl, htype.mp (hall node hnode)⟩
      · rintro ⟨other, hother, hne⟩
        obtain rfl := Option.some.inj hother
        refine ⟨id, hpath, fun found hfound => ?_⟩
        obtain rfl := Option.some.inj (hnode.symm.trans hfound)
        exact htype.mpr hne

/-- With such an index, the walk stalls where the sections say. -/
theorem AnswersLast.stalls_iff {before : List (GodotNode × Option String)} {state : NodeState}
    (hanswers : AnswersLast before state) (node : GodotNode) :
    state.Stalls node ↔ StallsAfter before node := by
  have hwalk : ∀ paths, state.WalkStalls paths ↔ WalkStallsAfter before paths := by
    intro paths
    refine exists_congr fun below => exists_congr fun path => exists_congr fun above =>
      and_congr_right fun _ => and_congr (hanswers path).not_mem_iff ?_
    exact forall_congr' fun lower => forall_congr' fun _ => (hanswers lower).edits_iff
  simp only [NodeState.Stalls, StallsAfter, hwalk]

namespace NodeState

variable {env : ParseEnv} {state : NodeState} {fuel : ℕ}

theorem assignNodeId_rootInstanceId {nodeId : NodeId} {assigned : NodeId × NodeState}
    (hdone : state.assignNodeId env fuel nodeId = .done assigned)
    (hnodeId : nodeId.rootInstanceId = none) : assigned.1.rootInstanceId = none := by
  have hdraw : ∀ fuel draws drawn, state.drawNodeId env fuel draws = .done drawn →
      drawn.1.rootInstanceId = none := by
    intro fuel
    induction fuel with
    | zero => exact fun _ _ hdrawn => nomatch hdrawn
    | succ fuel ih =>
        intro draws drawn hdrawn
        rw [drawNodeId] at hdrawn
        split at hdrawn
        · exact ih (draws + 1) drawn hdrawn
        · cases hdrawn
          rfl
  unfold assignNodeId at hdone
  split at hdone
  · obtain ⟨drawn, hdrawn, hresult⟩ := Run.bind_eq_done_iff.mp hdone
    cases hresult
    exact hdraw fuel state.draws drawn hdrawn
  · cases hdone
    exact hnodeId

/-- Only a node that edits an instance has a qualified id. -/
theorem placeNode_rootInstanceId {node placed : GodotNode}
    (hdone : state.placeNode node = .done placed) (hnode : node.id.rootInstanceId = none) :
    placed.name = node.name ∧ (placed.id.rootInstanceId = none ↔ node.typeOrInstance ≠ none) := by
  unfold placeNode at hdone
  split at hdone
  · rename_i htype
    unfold qualifyNode at hdone
    dsimp only at hdone
    split at hdone
    · cases hdone
      exact ⟨rfl, by simp [htype]⟩
    · split at hdone
      · cases hdone
        exact ⟨rfl, by simp [htype]⟩
      · split at hdone
        · obtain ⟨above, -, hresult⟩ := Run.bind_eq_done_iff.mp hdone
          cases hresult
          split
          · exact ⟨rfl, by simp [htype]⟩
          · exact ⟨rfl, by simp [htype]⟩
        · nomatch hdone
  · rename_i htype
    cases hdone
    exact ⟨rfl, by simp [htype, hnode]⟩

end NodeState

/-- One round adds the answer for one more section. -/
theorem AnswersLast.addNode {env : ParseEnv} {fuel : ℕ} {state next : NodeState}
    {before : List (GodotNode × Option String)} {input : GodotNode × Option String}
    (hanswers : AnswersLast before state) (hdone : state.addNode env fuel input = .done next)
    (hinput : input.1.id.rootInstanceId = none) : AnswersLast (before ++ [input]) next := by
  obtain ⟨node, parentPath⟩ := input
  dsimp only at hinput
  simp only [NodeState.addNode, Run.bind_eq_done_iff] at hdone
  obtain ⟨⟨nodeId, assigned⟩, hassigned, placed, hplaced, hresult⟩ := hdone
  obtain ⟨hnodes, -, hpaths, -⟩ := NodeState.assignNodeId_eq hassigned
  have hnodeId := NodeState.assignNodeId_rootInstanceId hassigned hinput
  obtain ⟨hname, htype⟩ := NodeState.placeNode_rootInstanceId hplaced hnodeId
  split at hresult
  · cases hresult
  rename_i hfree
  cases hresult
  intro path
  rw [lastAt_append]
  by_cases heq : NodeState.sectionPath (node, parentPath) = path
  · rw [if_pos heq]
    refine .found ?_ (Finmap.lookup_insert _) htype
    rw [← heq, NodeState.sectionPath, ← hname]
    exact Finmap.lookup_insert _
  · rw [if_neg heq]
    have hne : path ≠ NodeState.indexedPath parentPath placed.name := by
      rw [hname]
      exact Ne.symm heq
    have hlookup : (assigned.nodeIdByNodePath.insert
        (NodeState.indexedPath parentPath placed.name) placed.id).lookup path =
        state.nodeIdByNodePath.lookup path := by
      rw [Finmap.lookup_insert_of_ne _ hne, hpaths]
    have hanswer := hanswers path
    generalize lastAt before path = answer at hanswer ⊢
    cases hanswer with
    | missing hpath => exact .missing (hlookup.trans hpath)
    | @found other id found hpath hfound hother =>
        refine .found (hlookup.trans hpath) ?_ hother
        dsimp only
        rw [Finmap.lookup_insert_of_ne, hnodes, hfound]
        rintro rfl
        exact hfree (hnodes ▸ Finmap.mem_of_lookup_eq_some hfound)

theorem AnswersLast.of_foldlM {env : ParseEnv} {fuel : ℕ} {parsedNodeIds : Finset NodeId}
    {before : List (GodotNode × Option String)} {state : NodeState}
    (hdone : before.foldlM (fun state input => state.addNode env fuel input)
      ({ parsedNodeIds := parsedNodeIds } : NodeState) = .done state)
    (hbefore : ∀ input ∈ before, input.1.id.rootInstanceId = none) :
    AnswersLast before state := by
  apply Run.foldlM_prefix_induct hdone (AnswersLast.empty parsedNodeIds)
  intro earlier input after middle next hinputs hmiddle hround
  exact hmiddle.addNode hround (hbefore input (by rw [hinputs]; simp))

end Before

/-! ## The whole text -/

/-- Finding parents and children always comes to an end. -/
theorem ends_foldlM_linkNode {placed : NodeState} (hplaced : placed.Placed) :
    (placed.keys.foldlM (linkNode placed.nodeIdByNodePath) placed.nodes).Ends := by
  rw [Run.ends_foldlM_iff]
  intro before uid after nodes hkeys hdone
  have hmem : uid ∈ nodes := by
    let invariant := fun state : HashMap NodeId GodotNode => uid ∈ state
    show invariant nodes
    apply Run.foldlM_induct hdone
    · exact (hplaced.mem_iff uid).mp (by rw [hkeys]; simp)
    · intro state item next _ hstate hround
      exact (linkNode_mem_iff hround uid).mpr hstate
  obtain ⟨node, hnode⟩ := Finmap.mem_iff.mp hmem
  unfold linkNode
  rw [hnode]
  dsimp only
  rw [Run.ends_bind_iff]
  constructor
  · unfold findParent
    split
    · split
      · exact Run.ends_done _
      · split
        · exact Run.ends_done _
        · exact Run.ends_fail _
    · exact Run.ends_done _
  · intro linked _
    split
    · exact Run.ends_done _
    · split
      · exact Run.ends_done _
      · exact Run.ends_fail _

theorem ends_foldlM_addConnection (env : ParseEnv) (paths : HashMap String NodeId)
    (inputs : List (String × String × GodotConnection)) :
    (inputs.foldlM (addConnection env paths) ∅).Ends := by
  rw [Run.ends_foldlM_iff]
  intro before input after connections _ _
  obtain ⟨fromPath, toPath, connection⟩ := input
  unfold addConnection
  dsimp only
  split
  · split
    · exact Run.ends_done _
    · exact Run.ends_fail _
  · split
    · split
      · exact Run.ends_done _
      · exact Run.ends_fail _
    · exact Run.ends_done _

/-- A run of `parse_scene` on these sections answers with a scene or with an error. -/
def ParseEnds (env : ParseEnv) (sections : List Section) : Prop :=
  ∃ fuel, (parseScene env fuel sections).Ends

/-- Every node that the second pass comes to can get an id, and the walk up from it does not
stall. -/
def NodesEnd (env : ParseEnv) (read : SectionState) : Prop :=
  ∀ before input after state, read.nodeArr = before ++ input :: after →
    (∃ fuel, before.foldlM (fun state input => state.addNode env fuel input)
      ({ parsedNodeIds := read.parsedNodeIds } : NodeState) = .done state) →
    state.CanDraw env input.1.id ∧ ¬ StallsAfter before input.1

theorem exists_ends_foldlM_addNode_iff {env : ParseEnv} {sections : List Section}
    {read : SectionState} (hread : sections.foldlM SectionState.readSection {} = .done read) :
    (∃ fuel, (read.nodeArr.foldlM (fun (state : NodeState) input => state.addNode env fuel input)
      ({ parsedNodeIds := read.parsedNodeIds } : NodeState)).Ends) ↔ NodesEnd env read := by
  rw [@Run.exists_ends_foldlM_iff _ _ fun fuel (state : NodeState) input =>
    state.addNode env fuel input]
  · refine forall_congr' fun before => forall_congr' fun input => forall_congr' fun after =>
      forall_congr' fun state => forall_congr' fun hinputs => forall_congr' fun hstate => ?_
    obtain ⟨fuel, hdone⟩ := hstate
    have hanswers : AnswersLast before state := by
      apply AnswersLast.of_foldlM hdone
      intro earlier hearlier
      have hmem : earlier ∈ read.nodeArr := hinputs ▸ List.mem_append_left _ hearlier
      exact (fields_of_mem_nodeArr hread hmem).2.2.2
    rw [NodeState.exists_ends_addNode_iff, hanswers.stalls_iff]
  · intro fuel more state input hround hle
    exact NodeState.addNode_mono hround hle

/-- Once every node has its place, `parse_scene` ends. -/
theorem parseScene_ends_iff {env : ParseEnv} {fuel : ℕ} {sections : List Section} :
    (parseScene env fuel sections).Ends ↔
      (sections.foldlM SectionState.readSection {}).Ends ∧
        ∀ read, sections.foldlM SectionState.readSection {} = .done read →
          (read.nodeArr.foldlM (fun (state : NodeState) input => state.addNode env fuel input)
            ({ parsedNodeIds := read.parsedNodeIds } : NodeState)).Ends := by
  unfold parseScene
  rw [Run.ends_bind_iff]
  refine and_congr_right fun _ => forall_congr' fun read => forall_congr' fun hread => ?_
  rw [Run.ends_bind_iff]
  refine and_iff_left fun placed hdone => ?_
  have hplaced := NodeState.placed_of_foldlM hdone fun input hinput =>
    childNodeIds_of_mem_nodeArr hread hinput
  rw [Run.ends_bind_iff]
  refine ⟨ends_foldlM_linkNode hplaced, fun nodes _ => ?_⟩
  rw [Run.ends_bind_iff]
  refine ⟨ends_foldlM_addConnection env _ _, fun connections _ => ?_⟩
  split
  · exact Run.ends_fail _
  · exact Run.ends_done _

/-- **Parsing ends exactly when no section is malformed, no draw goes on for ever, and no walk
stalls.** -/
theorem parseEnds_iff (env : ParseEnv) (sections : List Section) :
    ParseEnds env sections ↔ SectionsEnd sections ∧
      ∀ read, sections.foldlM SectionState.readSection {} = .done read → NodesEnd env read := by
  rw [← ends_foldlM_readSection_iff]
  simp only [ParseEnds, parseScene_ends_iff]
  constructor
  · rintro ⟨fuel, hread, hnodes⟩
    refine ⟨hread, fun read hdone => ?_⟩
    exact (exists_ends_foldlM_addNode_iff hdone).mp ⟨fuel, hnodes read hdone⟩
  · rintro ⟨hread, hnodes⟩
    rcases hread with ⟨read, hdone⟩ | ⟨message, hfail⟩
    · obtain ⟨fuel, hends⟩ := (exists_ends_foldlM_addNode_iff hdone).mpr (hnodes read hdone)
      refine ⟨fuel, .inl ⟨read, hdone⟩, fun other hother => ?_⟩
      obtain rfl := Run.done.inj (hdone.symm.trans hother)
      exact hends
    · exact ⟨0, .inr ⟨message, hfail⟩, fun read hdone => nomatch hfail.symm.trans hdone⟩

/-! ## An edited node inside an instance -/

/-- A root, an instance below it, and a node edited two levels inside the instance, whose own
parent is not in the text. -/
def editedSections : List Section :=
  [⟨"gd_scene", [("format", "3"), ("uid", "\"uid://edited\"")], []⟩,
    ⟨"node", [("name", "\"Root\""), ("type", "\"Node\""), ("unique_id", "1")], []⟩,
    ⟨"node", [("name", "\"Inst\""), ("parent", "\".\""), ("unique_id", "2"),
      ("instance", "ExtResource(\"1\")")], []⟩,
    ⟨"node", [("name", "\"Leaf\""), ("parent", "\"Inst/Inner\""), ("unique_id", "3")], []⟩]

theorem parseScene_editedSections (env : ParseEnv) (fuel : ℕ) :
    parseScene env fuel editedSections = .running := rfl

/-- **The walk up from the edited node does not get past its parent.** -/
theorem not_parseEnds_editedSections : ¬ ParseEnds ⟨fun _ => 7, fun _ => ""⟩ editedSections := by
  rintro ⟨fuel, hends⟩
  rw [parseScene_editedSections] at hends
  exact Run.not_ends_running hends

end Backstitch
