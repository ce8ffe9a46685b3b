/-
# Is the text a function of the scene?

`serialize` iterates a dozen hash maps, and `to_hash` is taken of what it writes.
Every map is sorted first, but by keys that two entries may share.  The text is
the same for all iteration orders exactly when, wherever two entries tie, their
pieces of text can be written in either order.
-/

import Backstitch.Library.SortedText
import Backstitch.Parser.Writable

namespace Backstitch

open Relation

/-- No two lines of these properties tie, unless they can be written in either
order. -/
def Properties.TiesCommute (properties : Properties) : Prop :=
  HashMap.TiesCommute properties (fun property => property.2.order) propertyText

theorem Properties.forall_propertiesText_eq_iff {properties : Properties} :
    (∀ first second, properties.Iterates first → properties.Iterates second →
      propertiesText first = propertiesText second) ↔ properties.TiesCommute :=
  HashMap.forall_sortedText_eq_iff

theorem length_propertiesText {properties : Properties}
    {first second : List (Entry String OrderedProperty)} (hfirst : properties.Iterates first)
    (hsecond : properties.Iterates second) :
    (propertiesText first).toList.length = (propertiesText second).toList.length :=
  length_sortedText_of_perm (hfirst.perm hsecond)

namespace GodotScene

variable (scene : GodotScene)

/-- Whatever orders two calls of `serialize` iterate the maps in, they write the
same text, or neither comes back. -/
def SerializesAlike : Prop :=
  ∀ first second : IterationOrders, first.Of scene → second.Of scene →
    ∀ text, scene.Serializes first text ↔ scene.Serializes second text

/-- The text of an entry of the external resources. -/
def extResourceText (entry : Entry String ExternalResourceNode) : String :=
  headingText "ext_resource" (extResourceAttributes id false entry.2)

/-- The texts of the connections, for a call that comes back. -/
def ConnectionTexts (fuel : ℕ) (text : Entry String GodotConnection → String) : Prop :=
  ∀ entry : Entry String GodotConnection, scene.connections.lookup entry.1 = some entry.2 →
    scene.connectionText fuel entry.2 = .done (text entry)

/-- Wherever two entries that `serialize` sorts have equal keys, their pieces of
text can be written in either order. -/
structure TiesCommute : Prop where
  extResources : scene.extResources.TiesCommute (fun entry => entry.2.idx) extResourceText
  subResourceProperties : ∀ key resource, scene.subResources.lookup key = some resource →
    Properties.TiesCommute resource.properties
  subResources : ∀ orders : IterationOrders, orders.Of scene →
    scene.subResources.TiesCommute (fun entry => entry.2.idx) (subResourceText orders)
  mainResourceProperties : ∀ resource, scene.mainResource = some resource →
    Properties.TiesCommute resource.properties
  nodeProperties : scene.mainResource = none → ∀ rootNodeId key node,
    scene.rootNodeId = some rootNodeId → ReflTransGen scene.ChildStep rootNodeId key →
    scene.nodes.lookup key = some node → Properties.TiesCommute node.properties
  connections : scene.mainResource = none → ∀ fuel visits text,
    scene.rootVisits fuel = .done visits → scene.ConnectionTexts fuel text →
    scene.connections.TiesCommute
      (fun entry => connectionKey (positions visits) entry.2) text

variable {scene}

/-! ## The nodes that are visited -/

/-- What is visited below a node is what can be reached from it. -/
theorem exists_mem_visits_iff {fuel : ℕ} {key : NodeId} {node : GodotNode}
    {result : List Visit} (hnode : scene.nodes.lookup key = some node)
    (hdone : scene.visits fuel key node = .done result) {target : NodeId} :
    (∃ visit ∈ result, visit.key = target) ↔ ReflTransGen scene.ChildStep key target := by
  induction fuel generalizing key node result with
  | zero => cases hdone
  | succ fuel ih =>
      obtain ⟨attributes, below, -, hbelow, rfl⟩ := scene.visits_succ_eq_done_iff.mp hdone
      constructor
      · rintro ⟨visit, hvisit, rfl⟩
        rcases List.mem_cons.mp hvisit with rfl | hvisit
        · exact .refl
        · obtain ⟨found, hfound, hvisit⟩ := List.mem_flatten.mp hvisit
          obtain ⟨childId, hlisted, hvisits⟩ := Run.exists_of_mem_mapM hbelow hfound
          cases hchild : scene.nodes.lookup childId with
          | none =>
              simp only [childVisits, hchild, Run.done.injEq] at hvisits
              subst hvisits
              cases hvisit
          | some child =>
              simp only [childVisits, hchild] at hvisits
              have hstep := (childStep_of_lookup hnode).mpr
                ⟨hlisted, Finmap.mem_of_lookup_eq_some hchild⟩
              exact .head hstep ((ih hchild hvisits).mp ⟨visit, hvisit, rfl⟩)
      · intro hreach
        rcases ReflTransGen.cases_head hreach with rfl | ⟨childId, hstep, hrest⟩
        · exact ⟨_, List.mem_cons_self, rfl⟩
        · obtain ⟨hlisted, hmem⟩ := (childStep_of_lookup hnode).mp hstep
          obtain ⟨child, hchild⟩ := Finmap.mem_iff.mp hmem
          obtain ⟨found, hfound, hvisits⟩ := Run.exists_of_mapM_done hbelow hlisted
          simp only [childVisits, hchild] at hvisits
          obtain ⟨visit, hvisit, hkey⟩ := (ih hchild hvisits).mpr hrest
          exact ⟨visit, List.mem_cons_of_mem _ (List.mem_flatten.mpr ⟨found, hfound, hvisit⟩),
            hkey⟩

theorem mem_of_reflTransGen_childStep {key target : NodeId} (hkey : key ∈ scene.nodes)
    (hreach : ReflTransGen scene.ChildStep key target) : target ∈ scene.nodes := by
  rcases ReflTransGen.cases_tail hreach with rfl | ⟨_, _, _, _, _, hmem⟩
  · exact hkey
  · exact hmem

/-- The keys visited from the root are those it reaches, and all of them exist. -/
theorem exists_mem_rootVisits_iff {fuel : ℕ} {visits : List Visit}
    (hdone : scene.rootVisits fuel = .done visits) {key : NodeId} :
    (∃ visit ∈ visits, visit.key = key) ↔ key ∈ scene.nodes ∧
      ∃ rootNodeId, scene.rootNodeId = some rootNodeId ∧
        ReflTransGen scene.ChildStep rootNodeId key := by
  unfold rootVisits at hdone
  cases hroot : scene.rootNodeId with
  | none =>
      simp only [hroot, Run.done.injEq] at hdone
      simp [← hdone]
  | some rootNodeId =>
      cases hnode : scene.nodes.lookup rootNodeId with
      | none =>
          simp only [hroot, hnode, Run.done.injEq] at hdone
          simp only [← hdone, List.not_mem_nil, false_and, exists_false, Option.some.injEq,
            exists_eq_left', false_iff, not_and]
          intro hmem hreach
          have habsent : rootNodeId ∉ scene.nodes := Finmap.lookup_eq_none.mp hnode
          rcases ReflTransGen.cases_head hreach with rfl | ⟨_, ⟨_, hfound, _⟩, _⟩
          · exact habsent hmem
          · exact habsent (Finmap.mem_of_lookup_eq_some hfound)
      | some rootNode =>
          simp only [hroot, hnode] at hdone
          rw [exists_mem_visits_iff hnode hdone]
          simp only [Option.some.injEq, exists_eq_left', iff_and_self]
          exact mem_of_reflTransGen_childStep (Finmap.mem_of_lookup_eq_some hnode)

/-! ## The text, once the outline is known -/

/-- With enough fuel for the nodes and the connections, the text is that of the
resources, the nodes, the sorted connections and the editables. -/
theorem serialize_of_outline (hmain : scene.mainResource = none) {fuel : ℕ}
    {visits : List Visit} {text : Entry String GodotConnection → String}
    (hvisits : scene.rootVisits fuel = .done visits) (htext : scene.ConnectionTexts fuel text)
    {orders : IterationOrders} (horders : orders.Of scene) :
    scene.serialize orders fuel =
      .done (scene.resourcesText id false orders ++ scene.nodesText orders visits ++
        sortedText (fun entry => connectionKey (positions visits) entry.2) text
          orders.connections ++ scene.editablesText) := by
  refine (scene.serialize_eq_done_iff hmain).mpr ⟨visits, _, hvisits, ?_, rfl⟩
  exact Run.mapM_eq_done_map fun entry hentry =>
    htext entry ((mem_sortedConnections horders).mp hentry)

theorem exists_outline (hmain : scene.mainResource = none) (hwritable : scene.Writable) :
    ∃ fuel visits text, scene.rootVisits fuel = .done visits ∧
      scene.ConnectionTexts fuel text := by
  obtain ⟨orders, horders⟩ := IterationOrders.exists_of scene
  obtain ⟨_, fuel, hdone⟩ := (exists_serializes_iff horders).mpr hwritable
  obtain ⟨visits, _, hvisits, htexts, -⟩ := (scene.serialize_eq_done_iff hmain).mp hdone
  have hall : ∀ entry : Entry String GodotConnection, ∃ text,
      scene.connections.lookup entry.1 = some entry.2 →
        scene.connectionText fuel entry.2 = .done text := by
    intro entry
    by_cases hentry : scene.connections.lookup entry.1 = some entry.2
    · obtain ⟨text, -, htext⟩ :=
        Run.exists_of_mapM_done htexts ((mem_sortedConnections horders).mpr hentry)
      exact ⟨text, fun _ => htext⟩
    · exact ⟨"", fun h => absurd h hentry⟩
  choose text htext using hall
  exact ⟨fuel, visits, text, hvisits, htext⟩

/-- More fuel does not change a text that came back. -/
theorem serialize_mono {orders : IterationOrders} {fuel more : ℕ} {text : String}
    (hdone : scene.serialize orders fuel = .done text) (hle : fuel ≤ more) :
    scene.serialize orders more = .done text := by
  rcases Option.eq_none_or_eq_some scene.mainResource with hmain | ⟨resource, hmain⟩
  · obtain ⟨visits, connections, hvisits, hconnections, rfl⟩ :=
      (scene.serialize_eq_done_iff hmain).mp hdone
    refine (scene.serialize_eq_done_iff hmain).mpr ⟨visits, connections, ?_, ?_, rfl⟩
    · exact scene.rootVisits_mono hvisits hle
    · exact Run.mapM_done_mono hconnections fun _ _ _ htext =>
        scene.connectionText_mono htext hle
  · rw [scene.serialize_of_mainResource hmain] at hdone ⊢
    exact hdone

theorem Serializes.unique {orders : IterationOrders} {first second : String}
    (hfirst : scene.Serializes orders first) (hsecond : scene.Serializes orders second) :
    first = second := by
  obtain ⟨fuel, hfirst⟩ := hfirst
  obtain ⟨more, hsecond⟩ := hsecond
  exact Run.done.inj ((serialize_mono hfirst (Nat.le_max_left fuel more)).symm.trans
    (serialize_mono hsecond (Nat.le_max_right fuel more)))

/-! ## Commuting ties are enough -/

section Sufficient

variable {first second : IterationOrders}

theorem resourcesText_eq_sortedText (orders : IterationOrders) :
    scene.resourcesText id false orders =
      headingText scene.headerIdentifier scene.headerAttributes ++ "\n" ++
        sortedText (fun entry => entry.2.idx) extResourceText orders.extResources ++
        (if scene.extResources = ∅ then "" else "\n") ++
        sortedText (fun entry => entry.2.idx) (subResourceText orders) orders.subResources :=
  rfl

theorem subResourceText_eq_of_ties
    (hties : ∀ key resource, scene.subResources.lookup key = some resource →
      Properties.TiesCommute resource.properties)
    (hfirst : first.Of scene) (hsecond : second.Of scene)
    {entry : Entry String SubResourceNode}
    (hentry : scene.subResources.lookup entry.1 = some entry.2) :
    subResourceText first entry = subResourceText second entry := by
  unfold subResourceText
  rw [Properties.forall_propertiesText_eq_iff.mpr (hties _ _ hentry) _ _
    (hfirst.subResourceProperties _ _ hentry) (hsecond.subResourceProperties _ _ hentry)]

theorem resourcesText_eq_of_ties (hties : scene.TiesCommute) (hfirst : first.Of scene)
    (hsecond : second.Of scene) :
    scene.resourcesText id false first = scene.resourcesText id false second := by
  have hext : sortedText (fun entry => entry.2.idx) extResourceText first.extResources =
      sortedText (fun entry => entry.2.idx) extResourceText second.extResources :=
    HashMap.forall_sortedText_eq_iff.mpr hties.extResources _ _ hfirst.extResources
      hsecond.extResources
  have hsub : sortedText (fun entry => entry.2.idx) (subResourceText first)
        first.subResources =
      sortedText (fun entry => entry.2.idx) (subResourceText second) second.subResources :=
    calc
      _ = sortedText (fun entry => entry.2.idx) (subResourceText second) first.subResources :=
        sortedText_congr fun entry hentry =>
          subResourceText_eq_of_ties hties.subResourceProperties hfirst hsecond
            (hfirst.subResources.mem_iff.mp hentry)
      _ = _ := HashMap.forall_sortedText_eq_iff.mpr (hties.subResources second hsecond) _ _
        hfirst.subResources hsecond.subResources
  rw [resourcesText_eq_sortedText, resourcesText_eq_sortedText, hext, hsub]

/-- The nodes that are visited come with properties to iterate. -/
theorem iterates_of_mem_rootVisits {fuel : ℕ} {visits : List Visit} {orders : IterationOrders}
    (horders : orders.Of scene) (hvisits : scene.rootVisits fuel = .done visits)
    {visit : Visit} (hvisit : visit ∈ visits) :
    ∃ node rootNodeId, scene.nodes.lookup visit.key = some node ∧
      scene.rootNodeId = some rootNodeId ∧
      ReflTransGen scene.ChildStep rootNodeId visit.key ∧
      node.properties.Iterates (orders.nodeProperties visit.key) := by
  obtain ⟨hmem, rootNodeId, hroot, hreach⟩ :=
    (exists_mem_rootVisits_iff hvisits).mp ⟨visit, hvisit, rfl⟩
  obtain ⟨node, hnode⟩ := Finmap.mem_iff.mp hmem
  exact ⟨node, rootNodeId, hnode, hroot, hreach, horders.nodeProperties _ _ hnode⟩

theorem nodesText_eq_of_ties (hmain : scene.mainResource = none) (hties : scene.TiesCommute)
    (hfirst : first.Of scene) (hsecond : second.Of scene) {fuel : ℕ} {visits : List Visit}
    (hvisits : scene.rootVisits fuel = .done visits) :
    scene.nodesText first visits = scene.nodesText second visits := by
  have htexts : visits.map (Visit.text first) = visits.map (Visit.text second) := by
    refine List.map_congr_left fun visit hvisit => ?_
    obtain ⟨node, rootNodeId, hnode, hroot, hreach, horder⟩ :=
      iterates_of_mem_rootVisits hfirst hvisits hvisit
    unfold Visit.text
    rw [Properties.forall_propertiesText_eq_iff.mpr
      (hties.nodeProperties hmain _ _ _ hroot hreach hnode) _ _ horder
      (hsecond.nodeProperties _ _ hnode)]
  rw [nodesText, nodesText, htexts]

/-- A call that comes back writes the same text in any other orders. -/
theorem Serializes.of_ties (hties : scene.TiesCommute) (hfirst : first.Of scene)
    (hsecond : second.Of scene) {text : String} (hserializes : scene.Serializes first text) :
    scene.Serializes second text := by
  rcases Option.eq_none_or_eq_some scene.mainResource with hmain | ⟨resource, hmain⟩
  · obtain ⟨fuel, visits, connection, hvisits, hconnection⟩ :=
      exists_outline hmain ((exists_serializes_iff hfirst).mp ⟨text, hserializes⟩)
    have hconnections := HashMap.forall_sortedText_eq_iff.mpr
      (hties.connections hmain fuel visits connection hvisits hconnection) _ _
      hfirst.connections hsecond.connections
    rw [hserializes.unique ⟨fuel, serialize_of_outline hmain hvisits hconnection hfirst⟩,
      resourcesText_eq_of_ties hties hfirst hsecond,
      nodesText_eq_of_ties hmain hties hfirst hsecond hvisits, hconnections]
    exact ⟨fuel, serialize_of_outline hmain hvisits hconnection hsecond⟩
  · have hproperties := Properties.forall_propertiesText_eq_iff.mpr
      (hties.mainResourceProperties resource hmain) _ _
      (hfirst.mainResourceProperties _ hmain) (hsecond.mainResourceProperties _ hmain)
    rw [hserializes.unique ⟨0, scene.serialize_of_mainResource hmain first 0⟩,
      resourcesText_eq_of_ties hties hfirst hsecond, hproperties]
    exact ⟨0, scene.serialize_of_mainResource hmain second 0⟩

end Sufficient

/-! ## Commuting ties are needed -/

section Necessary

variable (scene) in
/-- Orders that agree on everything else give the same text of the resources. -/
def ResourcesAlike : Prop :=
  ∀ first second : IterationOrders, first.Of scene → second.Of scene →
    first.mainResourceProperties = second.mainResourceProperties →
    first.nodeProperties = second.nodeProperties → first.connections = second.connections →
    scene.resourcesText id false first = scene.resourcesText id false second

theorem extResources_tiesCommute (hsame : scene.ResourcesAlike) :
    scene.extResources.TiesCommute (fun entry => entry.2.idx) extResourceText := by
  obtain ⟨orders, horders⟩ := IterationOrders.exists_of scene
  refine HashMap.forall_sortedText_eq_iff.mp fun first second hfirst hsecond => ?_
  have htext := hsame { orders with extResources := first }
    { orders with extResources := second } { horders with extResources := hfirst }
    { horders with extResources := hsecond } rfl rfl rfl
  rw [resourcesText_eq_sortedText, resourcesText_eq_sortedText] at htext
  exact String.append_right_inj _ |>.mp ((String.append_left_inj _).mp
    ((String.append_left_inj _).mp htext))

theorem subResources_tiesCommute (hsame : scene.ResourcesAlike) {orders : IterationOrders}
    (horders : orders.Of scene) :
    scene.subResources.TiesCommute (fun entry => entry.2.idx) (subResourceText orders) := by
  refine HashMap.forall_sortedText_eq_iff.mp fun first second hfirst hsecond => ?_
  have htext := hsame { orders with subResources := first }
    { orders with subResources := second } { horders with subResources := hfirst }
    { horders with subResources := hsecond } rfl rfl rfl
  rw [resourcesText_eq_sortedText, resourcesText_eq_sortedText] at htext
  exact (String.append_right_inj _).mp htext

theorem subResourceProperties_tiesCommute (hsame : scene.ResourcesAlike) {key : String}
    {resource : SubResourceNode}
    (hresource : scene.subResources.lookup key = some resource) :
    Properties.TiesCommute resource.properties := by
  obtain ⟨orders, horders⟩ := IterationOrders.exists_of scene
  refine Properties.forall_propertiesText_eq_iff.mp fun first second hfirst hsecond => ?_
  let withOrder := fun order => { orders with
    subResourceProperties := Function.update orders.subResourceProperties key order }
  have hof : ∀ order, resource.properties.Iterates order → (withOrder order).Of scene := by
    intro order horder
    refine { horders with subResourceProperties := fun other found hfound => ?_ }
    by_cases heq : other = key
    · subst heq
      cases hresource.symm.trans hfound
      simpa [withOrder] using horder
    · simpa [withOrder, heq] using horders.subResourceProperties other found hfound
  have htext := hsame _ _ (hof first hfirst) (hof second hsecond) rfl rfl rfl
  rw [resourcesText_eq_sortedText, resourcesText_eq_sortedText] at htext
  have hpieces := eq_of_join_eq (fun entry hentry => ?_) ((String.append_right_inj _).mp htext)
  · have hmem : (⟨key, resource⟩ : Entry String SubResourceNode) ∈
        sortByKey (fun entry => entry.2.idx) orders.subResources :=
      (sortByKey_perm _ _).mem_iff.mpr (horders.subResources.mem_iff.mpr hresource)
    have hpiece := hpieces _ hmem
    simp only [subResourceText, withOrder, Function.update_self] at hpiece
    exact (String.append_right_inj _).mp ((String.append_left_inj _).mp hpiece)
  · have hentry : scene.subResources.lookup entry.1 = some entry.2 :=
      horders.subResources.mem_iff.mp ((sortByKey_perm _ _).mem_iff.mp hentry)
    have hlength := length_propertiesText ((hof first hfirst).subResourceProperties _ _ hentry)
      ((hof second hsecond).subResourceProperties _ _ hentry)
    simp only [subResourceText, String.toList_append, List.length_append, hlength]

theorem join_eq_of_nodesText_eq {first second : IterationOrders} {visits : List Visit}
    (htext : scene.nodesText first visits = scene.nodesText second visits) :
    String.join (visits.map (Visit.text first)) =
      String.join (visits.map (Visit.text second)) := by
  unfold nodesText at htext
  by_cases hlast : visits ≠ [] ∧ scene.connections = ∅ ∧ scene.editableInstances = []
  · obtain ⟨_, hfirst⟩ := exists_toList_join_eq first hlast.1
    obtain ⟨_, hsecond⟩ := exists_toList_join_eq second hlast.1
    simp only [if_pos hlast, hfirst, hsecond, List.dropLast_concat] at htext
    rw [← String.toList_inj, hfirst, hsecond, String.ofList_injective htext]
  · simpa only [if_neg hlast] using htext

theorem nodeProperties_tiesCommute {fuel : ℕ} {visits : List Visit}
    (hvisits : scene.rootVisits fuel = .done visits)
    (hsame : ∀ first second : IterationOrders, first.Of scene → second.Of scene →
      scene.resourcesText id false first = scene.resourcesText id false second →
      first.connections = second.connections →
      scene.nodesText first visits = scene.nodesText second visits)
    {key : NodeId} {node : GodotNode} {rootNodeId : NodeId}
    (hroot : scene.rootNodeId = some rootNodeId)
    (hreach : ReflTransGen scene.ChildStep rootNodeId key)
    (hnode : scene.nodes.lookup key = some node) :
    Properties.TiesCommute node.properties := by
  obtain ⟨orders, horders⟩ := IterationOrders.exists_of scene
  refine Properties.forall_propertiesText_eq_iff.mp fun first second hfirst hsecond => ?_
  let withOrder := fun order => { orders with
    nodeProperties := Function.update orders.nodeProperties key order }
  have hof : ∀ order, node.properties.Iterates order → (withOrder order).Of scene := by
    intro order horder
    refine { horders with nodeProperties := fun other found hfound => ?_ }
    by_cases heq : other = key
    · subst heq
      cases hnode.symm.trans hfound
      simpa [withOrder] using horder
    · simpa [withOrder, heq] using horders.nodeProperties other found hfound
  have htext := join_eq_of_nodesText_eq
    (hsame _ _ (hof first hfirst) (hof second hsecond) rfl rfl)
  have hpieces := eq_of_join_eq (fun visit hvisit => ?_) htext
  · obtain ⟨visit, hvisit, rfl⟩ := (exists_mem_rootVisits_iff hvisits).mpr
      ⟨Finmap.mem_of_lookup_eq_some hnode, rootNodeId, hroot, hreach⟩
    have hpiece := hpieces visit hvisit
    simp only [Visit.text, withOrder, Function.update_self] at hpiece
    exact (String.append_right_inj _).mp ((String.append_left_inj _).mp hpiece)
  · obtain ⟨found, _, hfound, _, _, horder⟩ :=
      iterates_of_mem_rootVisits (hof first hfirst) hvisits hvisit
    have hlength := length_propertiesText horder
      ((hof second hsecond).nodeProperties _ _ hfound)
    simp only [Visit.text, String.toList_append, List.length_append, hlength]

theorem nodesText_congr {first second : IterationOrders}
    (hnodes : first.nodeProperties = second.nodeProperties) (visits : List Visit) :
    scene.nodesText first visits = scene.nodesText second visits := by
  have htext : Visit.text first = Visit.text second := by
    funext visit
    rw [Visit.text, Visit.text, hnodes]
  rw [nodesText, nodesText, htext]

/-- With a main resource, the texts differ in the resources and in its properties. -/
theorem ties_of_serializesAlike_of_mainResource {resource : SubResourceNode}
    (hmain : scene.mainResource = some resource) (halike : scene.SerializesAlike) :
    scene.TiesCommute := by
  have hsame : ∀ first second : IterationOrders, first.Of scene → second.Of scene →
      scene.resourcesText id false first ++ "[resource]\n" ++
          propertiesText first.mainResourceProperties =
        scene.resourcesText id false second ++ "[resource]\n" ++
          propertiesText second.mainResourceProperties := by
    intro first second hfirst hsecond
    have hfirstText : scene.Serializes first _ :=
      ⟨0, scene.serialize_of_mainResource hmain first 0⟩
    exact ((halike first second hfirst hsecond _).mp hfirstText).unique
      ⟨0, scene.serialize_of_mainResource hmain second 0⟩
  have hresources : scene.ResourcesAlike := by
    intro first second hfirst hsecond hproperties _ _
    have hboth := hsame first second hfirst hsecond
    rw [hproperties] at hboth
    exact (String.append_left_inj _).mp ((String.append_left_inj _).mp hboth)
  have hnone : scene.mainResource ≠ none := by simp [hmain]
  refine ⟨extResources_tiesCommute hresources,
    fun _ _ => subResourceProperties_tiesCommute hresources,
    fun _ => subResources_tiesCommute hresources, ?_, fun h => absurd h hnone,
    fun h => absurd h hnone⟩
  intro found hfound
  cases hmain.symm.trans hfound
  obtain ⟨orders, horders⟩ := IterationOrders.exists_of scene
  refine Properties.forall_propertiesText_eq_iff.mp fun first second hfirst hsecond => ?_
  have hof : ∀ order, resource.properties.Iterates order →
      { orders with mainResourceProperties := order }.Of scene := by
    intro order horder
    refine { horders with mainResourceProperties := fun found hfound => ?_ }
    cases hmain.symm.trans hfound
    exact horder
  exact (String.append_right_inj _).mp (hsame _ _ (hof first hfirst) (hof second hsecond))

/-- Without one, they differ in the resources, the nodes and the connections. -/
theorem ties_of_serializesAlike_of_none (hmain : scene.mainResource = none)
    (hwritable : scene.Writable) (halike : scene.SerializesAlike) : scene.TiesCommute := by
  have htext : ∀ fuel visits text, scene.rootVisits fuel = .done visits →
      scene.ConnectionTexts fuel text → ∀ first second : IterationOrders, first.Of scene →
      second.Of scene →
      scene.resourcesText id false first ++ scene.nodesText first visits ++
          sortedText (fun entry => connectionKey (positions visits) entry.2) text
            first.connections =
        scene.resourcesText id false second ++ scene.nodesText second visits ++
          sortedText (fun entry => connectionKey (positions visits) entry.2) text
            second.connections := by
    intro fuel visits text hvisits htext first second hfirst hsecond
    have hfirstText : scene.Serializes first _ :=
      ⟨fuel, serialize_of_outline hmain hvisits htext hfirst⟩
    have hboth := ((halike first second hfirst hsecond _).mp hfirstText).unique
      ⟨fuel, serialize_of_outline hmain hvisits htext hsecond⟩
    exact (String.append_left_inj _).mp hboth
  obtain ⟨fuel, visits, text, hvisits, hconnections⟩ := exists_outline hmain hwritable
  have hsame := htext fuel visits text hvisits hconnections
  have hresources : scene.ResourcesAlike := by
    intro first second hfirst hsecond _ hnodes hconnection
    have hboth := hsame first second hfirst hsecond
    rw [hconnection, nodesText_congr hnodes] at hboth
    exact (String.append_left_inj _).mp ((String.append_left_inj _).mp hboth)
  refine ⟨extResources_tiesCommute hresources,
    fun _ _ => subResourceProperties_tiesCommute hresources,
    fun _ => subResources_tiesCommute hresources, ?_, ?_, ?_⟩
  · intro resource hresource
    rw [hmain] at hresource
    nomatch hresource
  · intro _ rootNodeId key node
    refine nodeProperties_tiesCommute hvisits ?_
    intro first second hfirst hsecond hresource hconnection
    have hboth := hsame first second hfirst hsecond
    rw [hresource, hconnection] at hboth
    exact (String.append_right_inj _).mp ((String.append_left_inj _).mp hboth)
  · intro _ fuel visits text hvisits hconnections
    obtain ⟨orders, horders⟩ := IterationOrders.exists_of scene
    refine HashMap.forall_sortedText_eq_iff.mp fun first second hfirst hsecond => ?_
    have hboth := htext fuel visits text hvisits hconnections
      { orders with connections := first } { orders with connections := second }
      { horders with connections := hfirst } { horders with connections := hsecond }
    exact (String.append_right_inj _).mp hboth

/-- If every two calls that come back write the same text, ties commute. -/
theorem ties_of_serializesAlike (hwritable : scene.Writable) (halike : scene.SerializesAlike) :
    scene.TiesCommute := by
  rcases Option.eq_none_or_eq_some scene.mainResource with hmain | ⟨resource, hmain⟩
  · exact ties_of_serializesAlike_of_none hmain hwritable halike
  · exact ties_of_serializesAlike_of_mainResource hmain halike

end Necessary

variable (scene)

/-- **The text depends only on the value of the scene exactly when, on a scene that
can be written at all, ties commute.** -/
theorem serializesAlike_iff :
    scene.SerializesAlike ↔ (scene.Writable → scene.TiesCommute) := by
  constructor
  · intro halike hwritable
    exact ties_of_serializesAlike hwritable halike
  · intro hties first second hfirst hsecond text
    constructor
    · intro hserializes
      exact hserializes.of_ties
        (hties ((exists_serializes_iff hfirst).mp ⟨text, hserializes⟩)) hfirst hsecond
    · intro hserializes
      exact hserializes.of_ties
        (hties ((exists_serializes_iff hsecond).mp ⟨text, hserializes⟩)) hsecond hfirst

end GodotScene

/-- Two external resources that concurrent edits gave the same index. -/
def tiedResources : List (Entry String ExternalResourceNode) :=
  [⟨"1_a", { resourceType := "Script", uid := none, path := "res://a.gd", id := "1_a", idx := 0 }⟩,
    ⟨"1_b", { resourceType := "Script", uid := none, path := "res://b.gd", id := "1_b", idx := 0 }⟩]

/-- A scene with the two resources and nothing else. -/
def tiedScene : StoredScene where
  loadSteps := 0
  format := 3
  uid := "uid://scene"
  scriptClass := none
  resourceType := "PackedScene"
  rootNodeId := none
  extResources := HashMap.collect tiedResources
  subResources := ∅
  connections := ∅
  editableInstances := []
  mainResource := none
  nodes := ∅

/-- The tied resources are written in the order they are iterated in. -/
theorem tiedScene_not_serializesAlike :
    ∃ scene, tiedScene.HydratesTo scene ∧ ¬ scene.SerializesAlike := by
  let scene : GodotScene := ⟨tiedScene.toSceneFields, ∅⟩
  refine ⟨scene, ⟨0, [], [], rfl, ?_, rfl⟩, fun halike => ?_⟩
  · exact visitsKeys_of_keys_eq rfl (by decide) (by decide)
  let orders := fun order : List (Entry String ExternalResourceNode) =>
    ({ extResources := order, subResources := [], subResourceProperties := fun _ => []
       mainResourceProperties := [], nodeProperties := fun _ => [], connections := [] } :
      IterationOrders)
  have hof : ∀ order, tiedResources.Perm order → (orders order).Of scene := by
    intro order hperm
    have hresources : scene.extResources.Iterates order :=
      HashMap.Iterates.of_perm (HashMap.iterates_collect (by decide)) hperm.symm
    refine ⟨hresources, rfl, fun _ _ h => ?_, fun _ h => ?_, fun _ _ h => ?_, rfl⟩
    · nomatch h
    · nomatch h
    · nomatch h
  obtain ⟨first, second, hfirst, hsecond, hne⟩ : ∃ first second,
      scene.serialize (orders tiedResources) 0 = .done first ∧
      scene.serialize (orders tiedResources.reverse) 0 = .done second ∧ first ≠ second :=
    ⟨_, _, rfl, rfl, by decide⟩
  have hswapped := (halike _ _ (hof _ (.refl _)) (hof _ (List.reverse_perm _).symm) first).mp
    ⟨0, hfirst⟩
  exact hne (hswapped.unique ⟨0, hsecond⟩)

end Backstitch
