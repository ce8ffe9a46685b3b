/-
# Scenes in a document

The part of a document that keeps the tree of a scene: the map of its nodes, and
for each node its parent and its child list.  The map and the parents are
registers, the child list is a sequence whose elements are registers.  What an
object holds is found under the operation that made it.

`Reads` compares a document with a stored scene.  It pins down the keys, the
parents, the root and how often each node is listed; the order of the child lists
and everything else that a node holds is left open.
-/

import Backstitch.Library.OpSet
import Backstitch.Parser.Trip

namespace Backstitch

/-- Where an operation writes. -/
inductive SceneLocation
  | rootNodeId
  | mainResource
  | node (key : String)
  | parentId (object : ℕ)
  | child (object element : ℕ)
  deriving DecidableEq

namespace SceneLocation

/-- The object that holds this location, by the operation that made it. -/
def holder : SceneLocation → Option ℕ
  | parentId object => some object
  | child object _ => some object
  | _ => none

/-- This is the place of a whole node. -/
def IsNode : SceneLocation → Prop
  | node _ => True
  | _ => False

instance (location : SceneLocation) : Decidable location.IsNode :=
  match location with
  | node _ => inferInstanceAs (Decidable True)
  | rootNodeId | mainResource | parentId _ | child _ _ => inferInstanceAs (Decidable False)

/-- This is an element of the child list of an object. -/
def IsChildOf (object : ℕ) : SceneLocation → Prop
  | child holder _ => holder = object
  | _ => False

instance (object : ℕ) (location : SceneLocation) : Decidable (location.IsChildOf object) :=
  match location with
  | child _ _ => inferInstanceAs (Decidable (_ = _))
  | rootNodeId | mainResource | node _ | parentId _ => inferInstanceAs (Decidable False)

end SceneLocation

/-- What an operation writes: a new object, or an id that may be null. -/
inductive SceneValue
  | object
  | nodeId (value : Option NodeId)
  deriving DecidableEq

abbrev SceneOp := Op SceneLocation SceneValue

abbrev SceneOps := OpSet SceneLocation SceneValue

namespace SceneOps

open OpSet

variable (ops : SceneOps)

/-! ## What a document shows -/

/-- The location shows this id. -/
def Refers (location : SceneLocation) (id : NodeId) : Prop :=
  ∃ op ∈ ops, ops.Wins location op ∧ op.value = some (.nodeId (some id))

/-- What hydration reads at a location that holds an optional id. -/
def ShowsId (location : SceneLocation) (id : Option NodeId) : Prop :=
  (∀ op ∈ ops, ops.Wins location op → op.value = some (.nodeId id)) ∧
    (ops.live location = ∅ → id = none)

instance (location : SceneLocation) (id : Option NodeId) :
    Decidable (ops.ShowsId location id) :=
  inferInstanceAs (Decidable (_ ∧ _))

/-- The keys under which there is a node. -/
def nodeKeys : Finset String :=
  ops.biUnion fun op =>
    match op.location with
    | .node key => if op ∈ ops.live op.location then {key} else ∅
    | _ => ∅

/-- The elements of the child list of an object. -/
def children (object : ℕ) : SceneOps :=
  ops.filter fun op => op.location.IsChildOf object ∧ ops.Wins op.location op

/-- How often the child list of an object lists a node. -/
def timesListed (object : ℕ) (id : NodeId) : ℕ :=
  ((ops.children object).filter fun op => op.value = some (.nodeId (some id))).card

/-- What the document holds for one node is what is stored for it. -/
def ReadsNode (object : ℕ) (node : GodotNode) : Prop :=
  ops.ShowsId (.parentId object) node.parentId ∧
    (ops.children object).val.map Op.value =
      node.childNodeIds.map fun id => some (SceneValue.nodeId (some id))

instance (object : ℕ) (node : GodotNode) : Decidable (ops.ReadsNode object node) :=
  inferInstanceAs (Decidable (_ ∧ _))

/-- The document reads as this stored scene. -/
structure Reads (stored : StoredScene) : Prop where
  keys : stored.nodes.keys = ops.nodeKeys
  nodes : ∀ entry ∈ stored.nodes.entries, ∀ op ∈ ops, ops.Wins (.node entry.1) op →
    ops.ReadsNode op.id entry.2
  rootNodeId : ops.ShowsId .rootNodeId stored.rootNodeId
  mainResource : stored.mainResource = none ↔
    ∀ op ∈ ops.live .mainResource, op.value ≠ some .object

instance (stored : StoredScene) : Decidable (ops.Reads stored) :=
  decidable_of_iff (_ ∧ _ ∧ _ ∧ _)
    ⟨fun ⟨keys, nodes, rootNodeId, mainResource⟩ => ⟨keys, nodes, rootNodeId, mainResource⟩,
      fun ⟨keys, nodes, rootNodeId, mainResource⟩ => ⟨keys, nodes, rootNodeId, mainResource⟩⟩

/-- A hydration of the document can return this scene. -/
def HydratesTo (scene : GodotScene) : Prop :=
  ∃ stored, ops.Reads stored ∧ stored.HydratesTo scene

/-! ## What a client writes -/

/-- The object that this location is a part of has been made. -/
def Holds (location : SceneLocation) : Prop :=
  ∀ object ∈ location.holder, ∃ made ∈ ops, made.id = object ∧ made.location.IsNode

/-- A client writes into objects that it has, over everything that it sees there. -/
def Allowed (op : SceneOp) : Prop :=
  ops.Holds op.location ∧ ∀ other ∈ ops.live op.location, other.id ∈ op.overwrites

instance (op : SceneOp) : Decidable (ops.Allowed op) :=
  inferInstanceAs (Decidable ((∀ object ∈ op.location.holder, _) ∧ _))

variable {ops} {more : SceneOps} {location : SceneLocation}

/-! ## Facts about what is shown -/

theorem mem_nodeKeys_iff {key : String} :
    key ∈ ops.nodeKeys ↔ (ops.live (.node key)).Nonempty := by
  unfold nodeKeys
  rw [Finset.mem_biUnion]
  constructor
  · intro ⟨op, _, hkey⟩
    split at hkey
    · rename_i found hlocation
      split at hkey
      · rename_i hlive
        rw [Finset.mem_singleton.mp hkey, ← hlocation]
        exact ⟨op, hlive⟩
      · simp at hkey
    · simp at hkey
  · intro ⟨op, hlive⟩
    refine ⟨op, mem_of_mem_live hlive, ?_⟩
    rw [location_of_mem_live hlive]
    simp [hlive]

theorem Refers.unique (hunique : ops.UniqueIds) {first second : NodeId}
    (hfirst : ops.Refers location first) (hsecond : ops.Refers location second) :
    first = second := by
  obtain ⟨op, -, hwins, hvalue⟩ := hfirst
  obtain ⟨other, -, hother, hotherValue⟩ := hsecond
  rw [hwins.unique hunique hother, hotherValue] at hvalue
  cases hvalue
  rfl

/-- The id that is read is the one that is shown. -/
theorem ShowsId.eq_some_iff {result : Option NodeId} (hshows : ops.ShowsId location result)
    {id : NodeId} : result = some id ↔ ops.Refers location id := by
  constructor
  · intro heq
    subst heq
    have hlive : (ops.live location).Nonempty := by
      rw [Finset.nonempty_iff_ne_empty]
      intro hempty
      nomatch hshows.2 hempty
    obtain ⟨op, hwins⟩ := exists_wins hlive
    exact ⟨op, mem_of_mem_live hwins.1, hwins, hshows.1 op (mem_of_mem_live hwins.1) hwins⟩
  · intro ⟨op, hop, hwins, hvalue⟩
    have hsame := hshows.1 op hop hwins
    rw [hvalue] at hsame
    cases hsame
    rfl

theorem refers_union_iff (hknown : more.KnownAt ops location) {id : NodeId} :
    Refers (ops ∪ more) location id ↔ ops.Refers location id := by
  constructor
  · intro ⟨op, _, hwins, hvalue⟩
    have hwins := (wins_union hknown).mp hwins
    exact ⟨op, mem_of_mem_live hwins.1, hwins, hvalue⟩
  · intro ⟨op, hop, hwins, hvalue⟩
    exact ⟨op, Finset.mem_union_left _ hop, (wins_union hknown).mpr hwins, hvalue⟩

theorem mem_children_iff {object : ℕ} {op : SceneOp} :
    op ∈ ops.children object ↔ op.location.IsChildOf object ∧ ops.Wins op.location op := by
  rw [children, Finset.mem_filter]
  constructor
  · exact And.right
  · intro hchild
    exact ⟨mem_of_mem_live hchild.2.1, hchild⟩

theorem holder_of_isChildOf {object : ℕ} (hchild : location.IsChildOf object) :
    location.holder = some object := by
  cases location with
  | child holder element => exact congrArg some hchild
  | _ => exact hchild.elim

/-- A stored node is what the document holds for its object. -/
theorem Reads.readsNode {stored : StoredScene} (hreads : ops.Reads stored) {key : String}
    {node : GodotNode} (hnode : stored.nodes.lookup key = some node) {op : SceneOp}
    (hop : ops.Wins (.node key) op) : ops.ReadsNode op.id node :=
  hreads.nodes ⟨key, node⟩ (Finmap.lookup_eq_some_iff.mp hnode) op (mem_of_mem_live hop.1) hop

/-- How often a node is listed is counted alike in the document and in the list. -/
theorem ReadsNode.count_eq {object : ℕ} {node : GodotNode} (hreads : ops.ReadsNode object node)
    (id : NodeId) : node.childNodeIds.count id = ops.timesListed object id := by
  have hinjective : Function.Injective fun id : NodeId =>
      some (SceneValue.nodeId (some id)) := by
    intro first second heq
    cases heq
    rfl
  have hcount := congrArg (Multiset.count (some (SceneValue.nodeId (some id)))) hreads.2
  rw [Multiset.count_map, ← Multiset.map_coe, Multiset.count_map_eq_count' _ _ hinjective,
    Multiset.coe_count] at hcount
  rw [← hcount, timesListed, Finset.card_def, Finset.filter_val]
  congr 2
  funext op
  exact propext eq_comm

end SceneOps

end Backstitch
