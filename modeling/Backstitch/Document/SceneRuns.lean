/-
# Clients that edit and merge a scene

Every client parses edited texts of a scene, reconciles them into its own copy of
the document and merges the copies of others.  Parents and child lists live in
different places of the document, so a merge can keep the parent that one side
wrote and the child lists of both.

A merge is harmless for a node when one of the two sides knows everything that
the other did about the place of that node.  Where all merges are harmless the
documents stay coherent, and whatever is hydrated from them is written out with
every node once.
-/

import Backstitch.Document.SceneDocument
import Backstitch.Parser.WrittenOnce

namespace Backstitch

open OpSet Relation

namespace SceneOps

/-! ## Coherent documents -/

/-- Parents and child lists of a document agree. -/
structure Coherent (ops : SceneOps) : Prop where
  holds : ∀ op ∈ ops, ops.Holds op.location
  single : ∀ key, ∀ op ∈ ops.live (.node key), ∀ other ∈ ops.live (.node key), op = other
  readable : ∀ key, (ops.live (.node key)).Nonempty →
    ∃ id : NodeId, id.Readable ∧ id.display = key
  listed : ∀ id parent : NodeId, id.Readable → parent.Readable → ∀ op parentOp,
    ops.Wins (.node id.display) op → ops.Wins (.node parent.display) parentOp →
      ((ops.Refers (.parentId op.id) parent → ops.timesListed parentOp.id id = 1) ∧
        (¬ ops.Refers (.parentId op.id) parent → ops.timesListed parentOp.id id = 0))
  root : ∀ root, ops.Refers .rootNodeId root →
    root.Readable ∧ (ops.live (.node root.display)).Nonempty
  plain : ∀ op ∈ ops.live .mainResource, op.value ≠ some .object

/-- What is hydrated from a coherent document is written out with every node once. -/
theorem Coherent.writesEachOnce {ops : SceneOps} (hcoherent : ops.Coherent)
    {scene : GodotScene} (hscene : ops.HydratesTo scene) : scene.WritesEachNodeOnce := by
  obtain ⟨stored, hreads, fuel, order, keys, horder, hvisits, hdone⟩ := hscene
  obtain ⟨result, hresult, heq⟩ := Run.bind_eq_done_iff.mp hdone
  cases heq
  obtain ⟨nodes, hcollect, hdedupe⟩ := Run.bind_eq_done_iff.mp hresult
  have hmemKeys : ∀ key, key ∈ stored.nodes ↔ (ops.live (.node key)).Nonempty := by
    intro key
    rw [← Finmap.mem_keys, hreads.keys, mem_nodeKeys_iff]
  have hlookup : ∀ {id node}, nodes.lookup id = some node ↔
      id.Readable ∧ stored.nodes.lookup id.display = some node :=
    lookup_collectNodes_iff (fun key hkey => hcoherent.readable key ((hmemKeys key).mp hkey))
      horder hcollect
  have hkeys : ∀ id ∈ keys, id ∈ nodes := fun id hid => ((hvisits nodes hcollect).2 id).mp hid
  obtain ⟨names, -, hrenamed⟩ := (exists_dedupeNames_iff hkeys).mp ⟨fuel, hdedupe⟩
  apply GodotScene.writesEachNodeOnce_of_treeConsistent
  · show TreeConsistent result
    intro id node parentId parent hnode hparent
    rw [hrenamed] at hnode hparent
    obtain ⟨node, hfound, rfl⟩ := Option.map_eq_some_iff.mp hnode
    obtain ⟨parent, hfoundParent, rfl⟩ := Option.map_eq_some_iff.mp hparent
    obtain ⟨hid, hnode⟩ := hlookup.mp hfound
    obtain ⟨hparentId, hparent⟩ := hlookup.mp hfoundParent
    obtain ⟨op, hop⟩ := exists_wins ((hmemKeys _).mp (Finmap.mem_of_lookup_eq_some hnode))
    obtain ⟨parentOp, hparentOp⟩ :=
      exists_wins ((hmemKeys _).mp (Finmap.mem_of_lookup_eq_some hparent))
    have hnodeReads := hreads.readsNode hnode hop
    have hparentReads := hreads.readsNode hparent hparentOp
    obtain ⟨honce, hnever⟩ := hcoherent.listed id parentId hid hparentId op parentOp hop hparentOp
    show parent.childNodeIds.count id = if node.parentId = some parentId then 1 else 0
    rw [hparentReads.count_eq]
    by_cases hrefers : node.parentId = some parentId
    · rw [if_pos hrefers]
      exact honce (hnodeReads.1.eq_some_iff.mp hrefers)
    · rw [if_neg hrefers]
      exact hnever fun hother => hrefers (hnodeReads.1.eq_some_iff.mpr hother)
  · exact hreads.mainResource.mpr hcoherent.plain
  · intro rootNodeId hroot
    obtain ⟨hreadable, hlive⟩ := hcoherent.root rootNodeId (hreads.rootNodeId.eq_some_iff.mp hroot)
    obtain ⟨node, hnode⟩ := Finmap.mem_iff.mp ((hmemKeys _).mpr hlive)
    show rootNodeId ∈ result
    rw [hrenamed.mem_iff]
    exact Finmap.mem_of_lookup_eq_some (hlookup.mpr ⟨hreadable, hnode⟩)

/-! ## Harmless merges -/

/-- This side knows what the other one did about the place of a node: to the node
itself, to its parent, to every list element that shows it and to its parent's own
existence. -/
structure KnowsPlace (ops other : SceneOps) (id : NodeId) : Prop where
  node : other.KnownAt ops (.node id.display)
  parentId : ∀ op, ops.Wins (.node id.display) op → other.KnownAt ops (.parentId op.id)
  child : ∀ object element op, op.value = some (.nodeId (some id)) →
    op ∈ ops.live (.child object element) ∨ op ∈ other.live (.child object element) →
    other.KnownAt ops (.child object element)
  parent : ∀ op parent, ops.Wins (.node id.display) op → ops.Refers (.parentId op.id) parent →
    other.KnownAt ops (.node parent.display)

/-- This side knows what the other one did about the root. -/
structure KnowsRoot (ops other : SceneOps) : Prop where
  rootNodeId : other.KnownAt ops .rootNodeId
  node : ∀ root, ops.Refers .rootNodeId root → other.KnownAt ops (.node root.display)

/-- For the root, and for every node that is on either side, one side knows what
the other did about its place. -/
def MergesCleanly (ops other : SceneOps) : Prop :=
  (KnowsRoot ops other ∨ KnowsRoot other ops) ∧
    ∀ id : NodeId, id.Readable →
      (ops.live (.node id.display)).Nonempty ∨ (other.live (.node id.display)).Nonempty →
      KnowsPlace ops other id ∨ KnowsPlace other ops id

/-- Merging into an empty document is harmless. -/
theorem mergesCleanly_empty (ops : SceneOps) : MergesCleanly ∅ ops := by
  have hknown : ∀ location, KnownAt (∅ : SceneOps) ops location := by
    intro location op hop
    exact absurd hop (Finset.notMem_empty op)
  refine ⟨.inr ⟨hknown _, fun _ _ => hknown _⟩, fun id _ _ => .inr ?_⟩
  exact ⟨hknown _, fun _ _ => hknown _, fun _ _ _ _ _ => hknown _, fun _ _ _ _ => hknown _⟩

section Merge

variable {ops other : SceneOps}

/-- The elements that show a node are those of the side that knows its place. -/
theorem KnowsPlace.timesListed_union {id : NodeId} (hknows : KnowsPlace ops other id)
    (object : ℕ) : timesListed (ops ∪ other) object id = ops.timesListed object id := by
  unfold timesListed
  congr 1
  ext op
  rw [Finset.mem_filter, Finset.mem_filter, mem_children_iff, mem_children_iff]
  constructor
  · intro ⟨⟨hchild, hwins⟩, hvalue⟩
    refine ⟨⟨hchild, ?_⟩, hvalue⟩
    cases hlocation : op.location with
    | child holder element =>
        rw [hlocation] at hwins
        have hside : op ∈ ops.live (.child holder element) ∨
            op ∈ other.live (.child holder element) := by
          rcases Finset.mem_union.mp (mem_of_mem_live hwins.1) with hmem | hmem
          · exact .inl (mem_live_of_subset Finset.subset_union_left hmem hwins.1)
          · exact .inr (mem_live_of_subset Finset.subset_union_right hmem hwins.1)
        exact (wins_union (hknows.child holder element op hvalue hside)).mp hwins
    | _ =>
        rw [hlocation] at hchild
        exact hchild.elim
  · intro ⟨⟨hchild, hwins⟩, hvalue⟩
    refine ⟨⟨hchild, ?_⟩, hvalue⟩
    cases hlocation : op.location with
    | child holder element =>
        rw [hlocation] at hwins
        exact (wins_union (hknows.child holder element op hvalue (.inl hwins.1))).mpr hwins
    | _ =>
        rw [hlocation] at hchild
        exact hchild.elim

/-- What holds of a node on the side that knows its place holds of it after the
merge. -/
theorem Coherent.listed_union (hops : ops.Coherent) (hunique : UniqueIds (ops ∪ other))
    {id parent : NodeId} (hid : id.Readable) (hparent : parent.Readable)
    (hknows : KnowsPlace ops other id) {op parentOp : SceneOp}
    (hop : Wins (ops ∪ other) (.node id.display) op)
    (hparentOp : Wins (ops ∪ other) (.node parent.display) parentOp) :
    (Refers (ops ∪ other) (.parentId op.id) parent →
        timesListed (ops ∪ other) parentOp.id id = 1) ∧
      (¬ Refers (ops ∪ other) (.parentId op.id) parent →
        timesListed (ops ∪ other) parentOp.id id = 0) := by
  have hop := (wins_union hknows.node).mp hop
  rw [refers_union_iff (hknows.parentId op hop), hknows.timesListed_union]
  by_cases hsame : ops.Wins (.node parent.display) parentOp
  · exact hops.listed id parent hid hparent op parentOp hop hsame
  -- the merged parent is an object that this side does not show
  · constructor
    · intro hrefers
      exact absurd ((wins_union (hknows.parent op parent hop hrefers)).mp hparentOp) hsame
    · intro _
      rw [timesListed, Finset.card_eq_zero, Finset.filter_eq_empty_iff]
      intro element helement _
      obtain ⟨hchild, hwins⟩ := mem_children_iff.mp helement
      obtain ⟨made, hmade, hmadeId, -⟩ := hops.holds element (mem_of_mem_live hwins.1)
        parentOp.id (holder_of_isChildOf hchild)
      have hmem : parentOp ∈ ops := by
        rw [← hunique made (Finset.mem_union_left _ hmade) parentOp
          (mem_of_mem_live hparentOp.1) hmadeId]
        exact hmade
      have hlive := mem_live_of_subset Finset.subset_union_left hmem hparentOp.1
      apply hsame
      refine ⟨hlive, fun found hfound => ?_⟩
      exact le_of_eq (congrArg Op.id (hops.single _ found hfound parentOp hlive))

theorem live_union_nonempty {location : SceneLocation}
    (hlive : (live (ops ∪ other) location).Nonempty) :
    (ops.live location).Nonempty ∨ (other.live location).Nonempty := by
  obtain ⟨op, hop⟩ := hlive
  rcases Finset.mem_union.mp (mem_of_mem_live hop) with hmem | hmem
  · exact .inl ⟨op, mem_live_of_subset Finset.subset_union_left hmem hop⟩
  · exact .inr ⟨op, mem_live_of_subset Finset.subset_union_right hmem hop⟩

theorem Coherent.root_union (hops : ops.Coherent) (hknows : KnowsRoot ops other) (root : NodeId)
    (hroot : Refers (ops ∪ other) .rootNodeId root) :
    root.Readable ∧ (live (ops ∪ other) (.node root.display)).Nonempty := by
  have hroot := (refers_union_iff hknows.rootNodeId).mp hroot
  rw [live_union (hknows.node root hroot)]
  exact hops.root root hroot

/-- **A harmless merge keeps documents coherent.** -/
theorem Coherent.merge (hops : ops.Coherent) (hother : other.Coherent)
    (hunique : UniqueIds (ops ∪ other)) (hclean : MergesCleanly ops other) :
    Coherent (ops ∪ other) := by
  have hcomm : ops ∪ other = other ∪ ops := Finset.union_comm ops other
  have hreadable : ∀ key, (live (ops ∪ other) (.node key)).Nonempty →
      ∃ id : NodeId, id.Readable ∧ id.display = key := by
    intro key hlive
    rcases live_union_nonempty hlive with hlive | hlive
    · exact hops.readable key hlive
    · exact hother.readable key hlive
  constructor
  · intro op hop object hobject
    rcases Finset.mem_union.mp hop with hop | hop
    · obtain ⟨made, hmade, hmadeId⟩ := hops.holds op hop object hobject
      exact ⟨made, Finset.mem_union_left _ hmade, hmadeId⟩
    · obtain ⟨made, hmade, hmadeId⟩ := hother.holds op hop object hobject
      exact ⟨made, Finset.mem_union_right _ hmade, hmadeId⟩
  · intro key op hop found hfound
    obtain ⟨id, hid, rfl⟩ := hreadable key ⟨op, hop⟩
    rcases hclean.2 id hid (live_union_nonempty ⟨op, hop⟩) with hknows | hknows
    · rw [live_union hknows.node] at hop hfound
      exact hops.single _ op hop found hfound
    · rw [hcomm, live_union hknows.node] at hop hfound
      exact hother.single _ op hop found hfound
  · exact hreadable
  · intro id parent hid hparent op parentOp hop hparentOp
    rcases hclean.2 id hid (live_union_nonempty ⟨op, hop.1⟩) with hknows | hknows
    · exact hops.listed_union hunique hid hparent hknows hop hparentOp
    · rw [hcomm] at hunique hop hparentOp ⊢
      exact hother.listed_union hunique hid hparent hknows hop hparentOp
  · intro root hroot
    rcases hclean.1 with hknows | hknows
    · exact hops.root_union hknows root hroot
    · rw [hcomm] at hroot ⊢
      exact hother.root_union hknows root hroot
  · intro op hop
    rcases Finset.mem_union.mp (mem_of_mem_live hop) with hmem | hmem
    · exact hops.plain op (mem_live_of_subset Finset.subset_union_left hmem hop)
    · exact hother.plain op (mem_live_of_subset Finset.subset_union_right hmem hop)

end Merge

/-! ## Edits -/

section Edit

variable {ops next : SceneOps} {used : ℕ → Prop}

/-- Clients only write into objects that they have. -/
theorem holds_of_written (hwritten : Written Allowed used ops next)
    (hholds : ∀ op ∈ ops, ops.Holds op.location) : ∀ op ∈ next, next.Holds op.location := by
  apply hwritten.induct hholds
  intro ops op hops hallowed _ found hfound object hobject
  have hmade : ∃ made ∈ ops, made.id = object ∧ made.location.IsNode := by
    rcases Finset.mem_insert.mp hfound with rfl | hfound
    · exact hallowed.1 object hobject
    · exact hops found hfound object hobject
  obtain ⟨made, hmem, hmade⟩ := hmade
  exact ⟨made, Finset.mem_insert_of_mem hmem, hmade⟩

/-- Clients overwrite what they see, so they leave one node under each key. -/
theorem single_of_written (hwritten : Written Allowed used ops next)
    (hsingle : ∀ key, ∀ op ∈ ops.live (.node key), ∀ other ∈ ops.live (.node key),
      op = other) :
    ∀ key, ∀ op ∈ next.live (.node key), ∀ other ∈ next.live (.node key), op = other := by
  apply hwritten.induct hsingle
  intro ops op hops hallowed _ key first hfirst second hsecond
  by_cases hlocation : op.location = .node key
  · have hlast : live (insert op ops) (.node key) ⊆ {op} :=
      live_insert_subset (by rw [← hlocation]; exact hallowed.2) hlocation
    rw [Finset.mem_singleton.mp (hlast hfirst), Finset.mem_singleton.mp (hlast hsecond)]
  · rw [live_insert_of_ne hlocation] at hfirst hsecond
    exact hops key first hfirst second hsecond

/-- **Reconciling a readable scene keeps a document coherent.** -/
theorem Coherent.edit (hops : ops.Coherent) (hwritten : Written Allowed used ops next)
    {scene : GodotScene} {order : List (Entry NodeId GodotNode)}
    (hreads : next.Reads (scene.reconcile order)) (horder : scene.nodes.Iterates order)
    (htree : TreeConsistent scene.nodes)
    (hroot : ∀ root, scene.rootNodeId = some root → root ∈ scene.nodes)
    (hreadable : ∀ id ∈ scene.nodes, id.Readable) (hmain : scene.mainResource = none) :
    next.Coherent := by
  have hstored : ∀ {key : String} {node : GodotNode},
      (scene.reconcile order).nodes.lookup key = some node ↔
        ∃ id, id.display = key ∧ scene.nodes.lookup id = some node :=
    lookup_reconcileNodes_iff hreadable horder
  have hkeys : ∀ key, key ∈ (scene.reconcile order).nodes ↔
      (next.live (.node key)).Nonempty := by
    intro key
    rw [← Finmap.mem_keys, hreads.keys, mem_nodeKeys_iff]
  -- a readable id that the document shows is one of the scene
  have hfind : ∀ id : NodeId, id.Readable → (next.live (.node id.display)).Nonempty →
      ∃ node, scene.nodes.lookup id = some node ∧
        (scene.reconcile order).nodes.lookup id.display = some node := by
    intro id hid hlive
    obtain ⟨node, hnode⟩ := Finmap.mem_iff.mp ((hkeys _).mpr hlive)
    obtain ⟨found, hdisplay, hfound⟩ := hstored.mp hnode
    have hsame := (hreadable found (Finmap.mem_of_lookup_eq_some hfound)).display_inj hid hdisplay
    exact ⟨node, hsame ▸ hfound, hnode⟩
  constructor
  · exact holds_of_written hwritten hops.holds
  · exact single_of_written hwritten hops.single
  · intro key hlive
    obtain ⟨node, hnode⟩ := Finmap.mem_iff.mp ((hkeys key).mpr hlive)
    obtain ⟨id, hdisplay, hid⟩ := hstored.mp hnode
    exact ⟨id, hreadable id (Finmap.mem_of_lookup_eq_some hid), hdisplay⟩
  · intro id parent hid hparent op parentOp hop hparentOp
    obtain ⟨node, hnode, hnodeStored⟩ := hfind id hid ⟨op, hop.1⟩
    obtain ⟨parentNode, hparentNode, hparentStored⟩ := hfind parent hparent ⟨parentOp, hparentOp.1⟩
    have hnodeReads := hreads.readsNode hnodeStored hop
    have hparentReads := hreads.readsNode hparentStored hparentOp
    have hcount := htree id node parent parentNode hnode hparentNode
    rw [hparentReads.count_eq] at hcount
    constructor
    · intro hrefers
      rw [hcount, if_pos (hnodeReads.1.eq_some_iff.mpr hrefers)]
    · intro hother
      rw [hcount, if_neg fun heq => hother (hnodeReads.1.eq_some_iff.mp heq)]
  · intro root hrefers
    have hmem := hroot root (hreads.rootNodeId.eq_some_iff.mpr hrefers)
    obtain ⟨node, hnode⟩ := Finmap.mem_iff.mp hmem
    refine ⟨hreadable root hmem, (hkeys _).mp ?_⟩
    exact Finmap.mem_of_lookup_eq_some (hstored.mpr ⟨root, rfl, hnode⟩)
  · intro op hop
    exact hreads.mainResource.mp hmain op hop

end Edit

end SceneOps

/-! ## Runs -/

universe u

/-- What a client does. -/
inductive SceneAction (client : Type u)
  /-- Parse an edited text and reconcile its scene into the own document. -/
  | edit (writer : client) (scene : GodotScene)
  /-- Merge the document of another client. -/
  | merge (into source : client)

section Runs

variable {client : Type u} [DecidableEq client]

/-- One step of the clients. -/
inductive SceneStep (docs : client → SceneOps) :
    SceneAction client → (client → SceneOps) → Prop
  | edit {writer : client} {env : ParseEnv} {sections : List Section} {scene : GodotScene}
      {order : List (Entry NodeId GodotNode)} {ops : SceneOps}
      (hparse : ParsesTo env sections scene) (horder : scene.nodes.Iterates order)
      (hwritten : Written SceneOps.Allowed (fun id => ∃ owner, ∃ op ∈ docs owner, op.id = id)
        (docs writer) ops)
      (hreads : ops.Reads (scene.reconcile order)) :
      SceneStep docs (.edit writer scene) (Function.update docs writer ops)
  | merge (into source : client) :
      SceneStep docs (.merge into source)
        (Function.update docs into (docs into ∪ docs source))

/-- An edit whose ids are readable and that makes no resource of the scene, or a
harmless merge. -/
def SceneAction.Harmless (docs : client → SceneOps) : SceneAction client → Prop
  | .edit _ scene => (∀ id ∈ scene.nodes, id.Readable) ∧ scene.mainResource = none
  | .merge into source => SceneOps.MergesCleanly (docs into) (docs source)

/-- The documents that the clients can get to from empty ones, by steps that meet
a condition. -/
def SceneReachable (condition : (client → SceneOps) → SceneAction client → Prop)
    (docs : client → SceneOps) : Prop :=
  ReflTransGen (fun docs next => ∃ action, condition docs action ∧ SceneStep docs action next)
    (fun _ => ∅) docs

theorem SceneOps.coherent_empty : SceneOps.Coherent ∅ := by
  constructor
  · simp
  · simp [OpSet.live]
  · simp [OpSet.live]
  · intro id parent _ _ op parentOp hop
    exact absurd (mem_of_mem_live hop.1) (Finset.notMem_empty op)
  · intro root ⟨op, hop, _⟩
    exact absurd hop (Finset.notMem_empty op)
  · simp [OpSet.live]

/-- Weaker conditions reach more. -/
theorem SceneReachable.mono {condition weaker : (client → SceneOps) → SceneAction client → Prop}
    {docs : client → SceneOps} (hrun : SceneReachable condition docs)
    (hweaker : ∀ docs action, condition docs action → weaker docs action) :
    SceneReachable weaker docs := by
  apply ReflTransGen.mono _ _ _ hrun
  intro docs next ⟨action, hcondition, hstep⟩
  exact ⟨action, hweaker docs action hcondition, hstep⟩

/-- A harmless step keeps all documents coherent and all ids apart. -/
theorem SceneStep.coherent {docs next : client → SceneOps} {action : SceneAction client}
    (hstep : SceneStep docs action next) (hharmless : action.Harmless docs)
    (hunique : GloballyUnique docs) (hcoherent : ∀ owner, (docs owner).Coherent) :
    GloballyUnique next ∧ ∀ owner, (next owner).Coherent := by
  cases hstep with
  | @edit writer env sections scene order ops hparse horder hwritten hreads =>
      refine ⟨hunique.write hwritten, fun owner => ?_⟩
      by_cases heq : owner = writer
      · subst heq
        rw [Function.update_self]
        exact (hcoherent owner).edit hwritten hreads horder hparse.treeConsistent
          (fun root hroot => hparse.root_mem hroot) hharmless.1 hharmless.2
      · rw [Function.update_of_ne heq]
        exact hcoherent owner
  | merge into source =>
      have hmerged := hunique.merge into source
      refine ⟨hmerged, fun owner => ?_⟩
      by_cases heq : owner = into
      · subst heq
        rw [Function.update_self]
        have hids := hmerged.uniqueIds owner
        rw [Function.update_self] at hids
        exact (hcoherent owner).merge (hcoherent source) hids hharmless
      · rw [Function.update_of_ne heq]
        exact hcoherent owner

/-- Harmless runs keep all documents coherent and all ids apart. -/
theorem SceneReachable.coherent {docs : client → SceneOps}
    (hrun : SceneReachable SceneAction.Harmless docs) :
    GloballyUnique docs ∧ ∀ owner, (docs owner).Coherent := by
  induction hrun with
  | refl =>
      constructor
      · intro first second op hop
        exact absurd hop (Finset.notMem_empty op)
      · intro owner
        exact SceneOps.coherent_empty
  | tail _ hstep ih =>
      obtain ⟨action, hharmless, hstep⟩ := hstep
      exact hstep.coherent hharmless ih.1 ih.2

/-- **After harmless edits and merges, in any number and order, whatever a client
hydrates is written out with every node once.** -/
theorem SceneReachable.writesEachNodeOnce {docs : client → SceneOps}
    (hrun : SceneReachable SceneAction.Harmless docs) (owner : client) {scene : GodotScene}
    (hscene : (docs owner).HydratesTo scene) : scene.WritesEachNodeOnce :=
  (hrun.coherent.2 owner).writesEachOnce hscene

end Runs

/-! ## Two moves of one node -/

/-- A text whose node `A` hangs under `parent`, next to `B` and `C` under the root. -/
def movedSections (parent : String) : List Section :=
  let node (attributes : List (String × String)) : Section := ⟨"node", attributes, []⟩
  [⟨"gd_scene", [("format", "3"), ("uid", "\"uid://scene\"")], []⟩,
    node [("name", "\"Root\""), ("type", "\"Node\""), ("unique_id", "1")],
    node [("name", "\"B\""), ("type", "\"Node\""), ("parent", "\".\""), ("unique_id", "3")],
    node [("name", "\"C\""), ("type", "\"Node\""), ("parent", "\".\""), ("unique_id", "4")],
    node [("name", "\"A\""), ("type", "\"Node\""), ("parent", parent), ("unique_id", "2")]]

/-- The operations that write the text with `A` under the root. -/
def firstWrites : SceneOps :=
  insert ⟨10, .child 1 10, some (.nodeId (some ⟨2, none⟩)), ∅⟩ <|
  insert ⟨9, .child 1 9, some (.nodeId (some ⟨4, none⟩)), ∅⟩ <|
  insert ⟨8, .child 1 8, some (.nodeId (some ⟨3, none⟩)), ∅⟩ <|
  insert ⟨7, .parentId 2, some (.nodeId (some ⟨1, none⟩)), ∅⟩ <|
  insert ⟨6, .parentId 4, some (.nodeId (some ⟨1, none⟩)), ∅⟩ <|
  insert ⟨5, .parentId 3, some (.nodeId (some ⟨1, none⟩)), ∅⟩ <|
  insert ⟨4, .node "4", some .object, ∅⟩ <|
  insert ⟨3, .node "3", some .object, ∅⟩ <|
  insert ⟨2, .node "2", some .object, ∅⟩ <|
  insert ⟨1, .node "1", some .object, ∅⟩ <|
  insert ⟨0, .rootNodeId, some (.nodeId (some ⟨1, none⟩)), ∅⟩ ∅

/-- The operations of a client that moves `A` under another node. -/
def moveWrites (firstId object : ℕ) (parent : NodeId) : SceneOps :=
  insert ⟨firstId + 2, .child object (firstId + 2), some (.nodeId (some ⟨2, none⟩)), ∅⟩ <|
  insert ⟨firstId + 1, .parentId 2, some (.nodeId (some parent)), {7}⟩ <|
  insert ⟨firstId, .child 1 10, none, {10}⟩ firstWrites

/-- The first text, read and written by one client. -/
def firstDocs : Bool → SceneOps := Function.update (fun _ => ∅) false firstWrites

/-- The other client has merged it. -/
def sharedDocs : Bool → SceneOps :=
  Function.update firstDocs true (firstDocs true ∪ firstDocs false)

/-- One client moves `A` under `B`, the other one under `C`. -/
def movedDocs : Bool → SceneOps :=
  Function.update (Function.update sharedDocs false (moveWrites 11 3 ⟨3, none⟩)) true
    (moveWrites 14 4 ⟨4, none⟩)

/-- The two moves are merged. -/
def mergedDocs : Bool → SceneOps :=
  Function.update movedDocs false (movedDocs false ∪ movedDocs true)

/-- A step that reads one of the texts and writes what it says. -/
theorem exists_edit {docs : Bool → SceneOps} {start ops : SceneOps} (writer : Bool)
    (parent : String) (hstart : docs writer = start)
    (hwritten : Written SceneOps.Allowed (fun id => ∃ owner, ∃ op ∈ docs owner, op.id = id)
      start ops)
    (hreads : ∃ scene order,
      parseScene ⟨fun _ => 7, fun _ => ""⟩ 1 (movedSections parent) = .done scene ∧
        scene.nodes.Iterates order ∧ ops.Reads (scene.reconcile order) ∧
        (∀ id ∈ scene.nodes.keys, 0 ≤ id.id ∧ id.rootInstanceId = none) ∧
        scene.mainResource = none) :
    ∃ action, action.Harmless docs ∧
      SceneStep docs action (Function.update docs writer ops) := by
  obtain ⟨scene, order, hparse, horder, hreads, hplain, hmain⟩ := hreads
  rw [← hstart] at hwritten
  refine ⟨.edit writer scene, ⟨fun id hid => ?_, hmain⟩, .edit ⟨1, hparse⟩ horder hwritten hreads⟩
  obtain ⟨hnonneg, hnone⟩ := hplain id (Finmap.mem_keys.mpr hid)
  rw [NodeId.Readable, hnone]
  exact ⟨hnonneg, nofun, nofun⟩

theorem sharedDocs_reachable : SceneReachable SceneAction.Harmless sharedDocs := by
  have hfirst : SceneReachable SceneAction.Harmless firstDocs := by
    apply ReflTransGen.single
    apply exists_edit false "\".\"" rfl
    · unfold firstWrites
      iterate 11 refine .write ?_ (by decide +kernel) (by decide +kernel) (by decide +kernel)
      exact .start
    · exact ⟨_, _, rfl, rfl, by decide +kernel, by decide +kernel, rfl⟩
  apply hfirst.tail
  exact ⟨.merge true false, SceneOps.mergesCleanly_empty _, .merge true false⟩


/-- A stored scene with this tree. -/
def storedTree (entries : List (Entry String GodotNode)) : StoredScene where
  loadSteps := 0
  format := 3
  uid := "uid://scene"
  scriptClass := none
  resourceType := "PackedScene"
  rootNodeId := some ⟨1, none⟩
  extResources := ∅
  subResources := ∅
  connections := ∅
  editableInstances := []
  mainResource := none
  nodes := HashMap.collect entries

/-- The text before the moves is hydrated by the client that merged it, and is
written out with every node once. -/
theorem sharedDocs_writesEachNodeOnce : ∃ scene, (sharedDocs true).HydratesTo scene ∧
    scene.nodes.keys.card = 4 ∧ scene.WritesEachNodeOnce := by
  let entries : List (Entry String GodotNode) :=
    [⟨"1", .bare ⟨1, none⟩ "Root" none [⟨3, none⟩, ⟨4, none⟩, ⟨2, none⟩]⟩,
      ⟨"2", .bare ⟨2, none⟩ "A" (some ⟨1, none⟩) []⟩,
      ⟨"3", .bare ⟨3, none⟩ "B" (some ⟨1, none⟩) []⟩,
      ⟨"4", .bare ⟨4, none⟩ "C" (some ⟨1, none⟩) []⟩]
  obtain ⟨scene, hhydrate, hcard⟩ : ∃ scene, (storedTree entries).HydratesTo scene ∧
      scene.nodes.keys.card = 4 := by
    refine ⟨_, ⟨1, entries, [⟨1, none⟩, ⟨2, none⟩, ⟨3, none⟩, ⟨4, none⟩],
      HashMap.iterates_collect (by decide), ?_, rfl⟩, by decide⟩
    exact visitsKeys_of_keys_eq rfl (by decide) (by decide)
  have hscene : (sharedDocs true).HydratesTo scene := ⟨_, by decide +kernel, hhydrate⟩
  exact ⟨scene, hscene, hcard, sharedDocs_reachable.writesEachNodeOnce true hscene⟩

/-- What the merge stores: `B` and `C` both list `A`. -/
def listedTwice : List (Entry String GodotNode) :=
  [⟨"1", .bare ⟨1, none⟩ "Root" none [⟨3, none⟩, ⟨4, none⟩]⟩,
    ⟨"2", .bare ⟨2, none⟩ "A" (some ⟨4, none⟩) []⟩,
    ⟨"3", .bare ⟨3, none⟩ "B" (some ⟨1, none⟩) [⟨2, none⟩]⟩,
    ⟨"4", .bare ⟨4, none⟩ "C" (some ⟨1, none⟩) [⟨2, none⟩]⟩]

/-- After the merge of the two moves `A` is written twice. -/
theorem mergedDocs_not_writesEachNodeOnce :
    ∃ docs : Bool → SceneOps, SceneReachable (fun _ _ => True) docs ∧
      ∃ scene, (docs false).HydratesTo scene ∧ ¬ scene.WritesEachNodeOnce := by
  have hshared : SceneReachable (fun _ _ => True) sharedDocs :=
    sharedDocs_reachable.mono fun _ _ _ => trivial
  have hfirst : SceneReachable (fun _ _ => True)
      (Function.update sharedDocs false (moveWrites 11 3 ⟨3, none⟩)) := by
    obtain ⟨action, -, hstep⟩ := @exists_edit sharedDocs firstWrites
      (moveWrites 11 3 ⟨3, none⟩) false "\"B\"" (by decide +kernel)
      (by
        unfold moveWrites
        iterate 3 refine .write ?_ (by decide +kernel) (by decide +kernel) (by decide +kernel)
        exact .start)
      ⟨_, _, rfl, rfl, by decide +kernel, by decide +kernel, rfl⟩
    exact hshared.tail ⟨action, trivial, hstep⟩
  have hmoved : SceneReachable (fun _ _ => True) movedDocs := by
    obtain ⟨action, -, hstep⟩ := @exists_edit
      (Function.update sharedDocs false (moveWrites 11 3 ⟨3, none⟩)) firstWrites
      (moveWrites 14 4 ⟨4, none⟩) true "\"C\"" (by decide +kernel)
      (by
        unfold moveWrites
        iterate 3 refine .write ?_ (by decide +kernel) (by decide +kernel) (by decide +kernel)
        exact .start)
      ⟨_, _, rfl, rfl, by decide +kernel, by decide +kernel, rfl⟩
    exact hfirst.tail ⟨action, trivial, hstep⟩
  have hmerged : SceneReachable (fun _ _ => True) mergedDocs :=
    hmoved.tail ⟨.merge false true, trivial, .merge false true⟩
  obtain ⟨scene, visits, hhydrate, hvisits, htwice, hmain, hconnections⟩ :
      ∃ scene visits, (storedTree listedTwice).HydratesTo scene ∧
        scene.rootVisits 9 = .done visits ∧ ¬ (visits.map Visit.key).Nodup ∧
        scene.mainResource = none ∧ scene.connections = ∅ := by
    refine ⟨_, _, ⟨1, listedTwice, [⟨1, none⟩, ⟨2, none⟩, ⟨3, none⟩, ⟨4, none⟩],
      HashMap.iterates_collect (by decide), ?_, rfl⟩, rfl, by decide, rfl, rfl⟩
    exact visitsKeys_of_keys_eq rfl (by decide) (by decide)
  refine ⟨mergedDocs, hmerged, scene, ⟨_, by decide +kernel, hhydrate⟩, fun hwrites => ?_⟩
  obtain ⟨orders, horders⟩ := IterationOrders.exists_of scene
  have hnone : orders.connections = [] := by
    have hiterates := horders.connections
    rw [hconnections] at hiterates
    exact Multiset.coe_eq_zero _ |>.mp hiterates
  have hdone := (scene.serialize_eq_done_iff hmain).mpr
    ⟨visits, [], hvisits, by rw [GodotScene.sortedConnections, hnone]; rfl, rfl⟩
  obtain ⟨found, hfound, hnodup, -⟩ := hwrites orders 9 _ horders hdone
  rw [GodotScene.nodeSections, hmain] at hfound
  cases hvisits.symm.trans hfound
  exact htwice hnodup

end Backstitch
