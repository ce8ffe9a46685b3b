/-
# Written again

A text that `serialize` has written is in its normal form: whoever reads it and writes what was
read gets the same text.  The numbers that reading gives out anew order the properties and the
resources as the old ones did, and nothing else of them is written.
-/

import Backstitch.Parser.RoundTrip
import Backstitch.Parser.Trip

namespace Backstitch

namespace Visit

/-- A visit of the node with its properties numbered anew. -/
def renumbered (orders : IterationOrders) (visit : Visit) : Visit :=
  { visit with node := { visit.node with
    properties := numberedProperties (orders.nodeProperties visit.key) } }

/-- Numbers do not show in the list of visits. -/
theorem foldl_record_renumbered (orders : IterationOrders) (visits : List Visit)
    (visited : HashMap NodeId ℤ) :
    (visits.map (renumbered orders)).foldl record visited = visits.foldl record visited := by
  rw [List.foldl_map]
  rfl

end Visit

/-- Properties that are numbered anew are written as before. -/
theorem propertiesText_numbered {properties : Properties}
    {order again : List (Entry String OrderedProperty)} (horder : properties.Iterates order)
    (hagain : (numberedProperties order).Iterates again) :
    propertiesText again = propertiesText order := by
  have hsorted := horder.of_perm (sortByKey_perm (fun property => property.2.order) order)
  refine congrArg String.join (HashMap.map_sortByKey_numbered ?_ ?_ hsorted hagain)
  · exact fun _ _ _ => rfl
  · exact fun _ _ _ _ _ => rfl

namespace GodotScene

namespace Renumbers

variable {scene parsed : GodotScene} {orders again : IterationOrders}

/-! ## Paths -/

theorem rootNodeId (hrenumbers : scene.Renumbers orders parsed) :
    parsed.rootNodeId = scene.rootNodeId := by
  rw [hrenumbers.fields]

theorem getNodePathLoop_eq (hrenumbers : scene.Renumbers orders parsed) (fuel : ℕ) (path : String)
    (id : NodeId) : parsed.getNodePathLoop fuel path id = scene.getNodePathLoop fuel path id := by
  induction fuel generalizing path id with
  | zero => rfl
  | succ fuel ih =>
      have hroot : parsed.rootIdOrUnassigned = scene.rootIdOrUnassigned := by
        rw [rootIdOrUnassigned, rootIdOrUnassigned, hrenumbers.rootNodeId]
      simp only [getNodePathLoop, hrenumbers.nodes id, hroot, ih]
      cases scene.nodes.lookup id <;> rfl

theorem getNodePath_eq (hrenumbers : scene.Renumbers orders parsed) (fuel : ℕ) (id : NodeId) :
    parsed.getNodePath fuel id = scene.getNodePath fuel id := by
  rw [getNodePath, getNodePath, hrenumbers.getNodePathLoop_eq, rootIdOrUnassigned,
    rootIdOrUnassigned, hrenumbers.rootNodeId]

theorem connectionText_eq (hrenumbers : scene.Renumbers orders parsed) (fuel : ℕ)
    (connection : GodotConnection) :
    parsed.connectionText fuel connection = scene.connectionText fuel connection := by
  simp only [connectionText, connectionAttributes, hrenumbers.getNodePath_eq]

theorem nodeAttributes_eq (hrenumbers : scene.Renumbers orders parsed) (fuel : ℕ)
    (node : GodotNode) (properties : Properties) :
    parsed.nodeAttributes fuel { node with properties := properties } =
      scene.nodeAttributes fuel node := by
  simp only [nodeAttributes, parentAttributes, parentName, hrenumbers.getNodePath_eq,
    hrenumbers.rootNodeId]
  rfl

/-! ## Nodes -/

/-- The nodes are visited in the same order. -/
theorem visits_eq (hrenumbers : scene.Renumbers orders parsed) {fuel : ℕ} {key : NodeId}
    {node : GodotNode} {visits : List Visit} (hdone : scene.visits fuel key node = .done visits) :
    parsed.visits fuel key
        { node with properties := numberedProperties (orders.nodeProperties key) } =
      .done (visits.map (Visit.renumbered orders)) := by
  induction fuel generalizing key node visits with
  | zero => cases hdone
  | succ fuel ih =>
      obtain ⟨attributes, below, hattributes, hbelow, rfl⟩ :=
        scene.visits_succ_eq_done_iff.mp hdone
      refine parsed.visits_succ_eq_done_iff.mpr ⟨attributes,
        below.map (List.map (Visit.renumbered orders)), ?_, ?_, ?_⟩
      · rw [hrenumbers.nodeAttributes_eq, hattributes]
      · rw [Run.mapM_eq_done_iff] at hbelow ⊢
        rw [List.forall₂_map_right_iff]
        refine hbelow.imp fun {childId found} hfound => ?_
        unfold childVisits at hfound ⊢
        rw [hrenumbers.nodes]
        cases hchild : scene.nodes.lookup childId with
        | none =>
            rw [hchild] at hfound
            cases hfound
            rfl
        | some child =>
            rw [hchild] at hfound
            exact ih hfound
      · rw [List.map_cons, List.map_flatten]
        rfl

theorem rootVisits_eq (hrenumbers : scene.Renumbers orders parsed) {fuel : ℕ}
    {visits : List Visit} (hdone : scene.rootVisits fuel = .done visits) :
    parsed.rootVisits fuel = .done (visits.map (Visit.renumbered orders)) := by
  unfold rootVisits at hdone ⊢
  rw [hrenumbers.rootNodeId]
  cases hroot : scene.rootNodeId with
  | none =>
      rw [hroot] at hdone
      cases hdone
      rfl
  | some root =>
      rw [hroot] at hdone
      dsimp only at hdone ⊢
      rw [hrenumbers.nodes]
      cases hnode : scene.nodes.lookup root with
      | none =>
          rw [hnode] at hdone
          cases hdone
          rfl
      | some node =>
          rw [hnode] at hdone
          exact hrenumbers.visits_eq hdone

theorem nodesText_eq (hrenumbers : scene.Renumbers orders parsed) (horders : orders.Of scene)
    (hagain : again.Of parsed) {fuel : ℕ} {visits : List Visit}
    (hdone : scene.rootVisits fuel = .done visits) :
    parsed.nodesText again (visits.map (Visit.renumbered orders)) =
      scene.nodesText orders visits := by
  have htexts : (visits.map (Visit.renumbered orders)).map (Visit.text again) =
      visits.map (Visit.text orders) := by
    rw [List.map_map]
    refine List.map_congr_left fun visit hvisit => ?_
    obtain ⟨node, -, hnode, -, -, horder⟩ := iterates_of_mem_rootVisits horders hdone hvisit
    have hparsed := hrenumbers.nodes visit.key
    rw [hnode, Option.map_some] at hparsed
    have hnumbered := hagain.nodeProperties _ _ hparsed
    show headingText "node" visit.attributes ++ propertiesText (again.nodeProperties visit.key) ++
      "\n" = visit.text orders
    rw [propertiesText_numbered horder hnumbered]
    rfl
  have hconnections : parsed.connections = scene.connections := by rw [hrenumbers.fields]
  have heditables : parsed.editableInstances = scene.editableInstances := by
    rw [hrenumbers.fields]
  rw [nodesText, nodesText, htexts, hconnections, heditables]
  simp only [ne_eq, List.map_eq_nil_iff]

/-! ## Resources -/

theorem resourcesText_eq (hrenumbers : scene.Renumbers orders parsed) (horders : orders.Of scene)
    (hagain : again.Of parsed) :
    parsed.resourcesText id false again = scene.resourcesText id false orders := by
  have hext : parsed.extResources = orders.numberedExtResources := by rw [hrenumbers.fields]
  have hsub : parsed.subResources = orders.numberedSubResources := by rw [hrenumbers.fields]
  have hextSorted := horders.extResources.of_perm
    (sortByKey_perm (fun entry => entry.2.idx) orders.extResources)
  have hsubSorted := horders.subResources.of_perm
    (sortByKey_perm (fun entry => entry.2.idx) orders.subResources)
  have hextText : (sortByKey (fun entry => entry.2.idx) again.extResources).map extResourceText =
      (sortByKey (fun entry => entry.2.idx) orders.extResources).map extResourceText := by
    refine HashMap.map_sortByKey_numbered ?_ ?_ hextSorted (hext ▸ hagain.extResources)
    · exact fun _ _ _ => rfl
    · exact fun _ _ _ _ _ => rfl
  have hsubText : (sortByKey (fun entry => entry.2.idx) again.subResources).map
        (subResourceText again) =
      (sortByKey (fun entry => entry.2.idx) orders.subResources).map (subResourceText orders) := by
    refine HashMap.map_sortByKey_numbered ?_ ?_ hsubSorted (hsub ▸ hagain.subResources)
    · exact fun _ _ _ => rfl
    · intro key resource position hresource hnumbered
      have hproperties := hagain.subResourceProperties key _ (by rw [hsub]; exact hnumbered)
      have horder := horders.subResourceProperties _ _ hresource
      unfold subResourceText
      rw [propertiesText_numbered horder hproperties]
      rfl
  have hheader : parsed.headerIdentifier = scene.headerIdentifier ∧
      parsed.headerAttributes = scene.headerAttributes := by
    unfold headerIdentifier headerAttributes
    rw [hrenumbers.fields]
    exact ⟨rfl, rfl⟩
  have hempty : parsed.extResources = ∅ ↔ scene.extResources = ∅ := by
    rw [hext]
    exact HashMap.numbered_eq_empty_iff hextSorted
  rw [resourcesText_eq_sortedText, resourcesText_eq_sortedText, hheader.1, hheader.2, sortedText,
    sortedText, sortedText, sortedText, hextText, hsubText]
  simp only [hempty]

/-! ## The whole text -/

/-- **A scene with other numbers has the same text**, if its connections are iterated over in the
same order. -/
theorem serialize_eq (hrenumbers : scene.Renumbers orders parsed) (horders : orders.Of scene)
    (hagain : again.Of parsed) (hconnections : again.connections = orders.connections)
    {fuel : ℕ} {text : String} (hdone : scene.serialize orders fuel = .done text) :
    parsed.serialize again fuel = .done text := by
  have hresources := hrenumbers.resourcesText_eq horders hagain
  rcases Option.eq_none_or_eq_some scene.mainResource with hmain | ⟨resource, hmain⟩
  · have hparsed : parsed.mainResource = none := by rw [hrenumbers.fields, hmain]; rfl
    have heditables : parsed.editablesText = scene.editablesText := by
      unfold editablesText
      rw [hrenumbers.fields]
    obtain ⟨visits, connections, hvisits, htexts, rfl⟩ :=
      (scene.serialize_eq_done_iff hmain).mp hdone
    refine (parsed.serialize_eq_done_iff hparsed).mpr
      ⟨_, connections, hrenumbers.rootVisits_eq hvisits, ?_, ?_⟩
    · simp only [sortedConnections, positions, Visit.foldl_record_renumbered, hconnections,
        hrenumbers.connectionText_eq]
      exact htexts
    · rw [hresources, hrenumbers.nodesText_eq horders hagain hvisits, heditables]
  · have hparsed : parsed.mainResource = some { resource with
        properties := numberedProperties orders.mainResourceProperties } := by
      rw [hrenumbers.fields, hmain]
      rfl
    have hproperties := propertiesText_numbered (horders.mainResourceProperties _ hmain)
      (hagain.mainResourceProperties _ hparsed)
    rw [scene.serialize_of_mainResource hmain] at hdone
    rw [parsed.serialize_of_mainResource hparsed, hresources, hproperties, hdone]

end Renumbers

variable {scene : GodotScene} {orders : IterationOrders}

/-- A scene that was parsed has the same connections, to be iterated over in any order. -/
theorem Renumbers.of_connections {parsed : GodotScene} {again : IterationOrders}
    (hrenumbers : scene.Renumbers orders parsed) (horders : orders.Of scene)
    (hagain : again.Of parsed) :
    IterationOrders.Of { orders with connections := again.connections } scene := by
  have hconnections : parsed.connections = scene.connections := by rw [hrenumbers.fields]
  exact { horders with connections := hconnections ▸ hagain.connections }

/-- Whatever orders the maps of a scene that was parsed are iterated in, its text is the old
one. -/
theorem Renumbers.serializes_iff {parsed : GodotScene} {again : IterationOrders}
    (hrenumbers : scene.Renumbers orders parsed) (halike : scene.SerializesAlike)
    (horders : orders.Of scene) (hagain : again.Of parsed) {text : String}
    (htext : scene.Serializes orders text) (other : String) :
    parsed.Serializes again other ↔ other = text := by
  have hswapped := hrenumbers.of_connections horders hagain
  obtain ⟨fuel, hdone⟩ := (halike _ _ horders hswapped text).mp htext
  have hsame : scene.Renumbers { orders with connections := again.connections } parsed :=
    ⟨hrenumbers.fields, hrenumbers.nodes⟩
  have hwrites : parsed.Serializes again text :=
    ⟨fuel, hsame.serialize_eq hswapped hagain rfl hdone⟩
  constructor
  · exact fun hother => hother.unique hwrites
  · rintro rfl
    exact hwrites

/-- The scenes that are parsed from what was written. -/
theorem IsFile.exists_sections (hfile : scene.IsFile) (hspelled : scene.IsSpelled)
    (horders : orders.Of scene) {text : String} (htext : scene.Serializes orders text) :
    ∃ sections, SpellsOut sections text ∧ ∀ env, (∃ parsed, ParsesTo env sections parsed) ∧
      ∀ parsed, ParsesTo env sections parsed → scene.Renumbers orders parsed := by
  obtain ⟨fuel, hdone⟩ := htext
  obtain ⟨sections, hsections, hspells⟩ := exists_textSections horders hdone
  have hall := hfile.exists_renumbered hspelled horders hsections
  refine ⟨sections, hspells, fun env => ⟨?_, ?_⟩⟩
  · obtain ⟨parsed, hparsed, -⟩ := hall env 0
    exact ⟨parsed, 0, hparsed⟩
  · intro parsed hparse
    obtain ⟨parseFuel, hparse⟩ := hparse
    obtain ⟨found, hfound, hrenumbers⟩ := hall env parseFuel
    obtain rfl := Run.done.inj (hparse.symm.trans hfound)
    exact hrenumbers

/-- In a file no two siblings look alike, whatever the numbers. -/
theorem IsFile.noLookalikes (hfile : scene.IsFile) {parsed : GodotScene}
    (hrenumbers : scene.Renumbers orders parsed) : NoLookalikes parsed.nodes := by
  intro id hid other hother hsame
  obtain ⟨node, parentId, parent, hnode, hparentId, hparent, hlisted, hne, one, child, hone,
    hchild, -⟩ := hother
  have hbefore : ∀ id found, parsed.nodes.lookup id = some found → ∃ old,
      scene.nodes.lookup id = some old ∧ found.name = old.name ∧
        found.parentId = old.parentId ∧ found.childNodeIds = old.childNodeIds := by
    intro id found hfound
    rw [hrenumbers.nodes, Option.map_eq_some_iff] at hfound
    obtain ⟨old, hold, rfl⟩ := hfound
    exact ⟨old, hold, rfl, rfl, rfl⟩
  obtain ⟨oldNode, holdNode, hname, holdParentId, -⟩ := hbefore id node hnode
  obtain ⟨oldParent, holdParent, -, -, hchildren⟩ := hbefore parentId parent hparent
  obtain ⟨oldChild, holdChild, hchildName, -, -⟩ := hbefore other child hchild
  have hnames : oldChild.name = oldNode.name := by
    rw [nodeName_of_lookup hchild, nodeName_of_lookup hnode] at hsame
    rw [← hchildName, ← hname, hsame]
  cases hfile with
  | resource _ _ hnodes =>
      rw [hnodes, Finmap.lookup_empty] at holdNode
      cases holdNode
  | scene htree =>
      have hchildParent := (htree.mem_childNodeIds_iff holdParent holdChild).mp
        (hchildren ▸ hlisted)
      exact hne (htree.siblings other id oldChild oldNode parentId holdChild holdNode hchildParent
        (holdParentId ▸ hparentId) hnames)

/-- A scene without lookalikes and with readable ids is the only one that comes back from its
document. -/
theorem hydratesTo_reconcile_iff {order : List (Entry NodeId GodotNode)}
    (hreadable : ∀ id ∈ scene.nodes, id.Readable) (hlookalikes : NoLookalikes scene.nodes)
    (horder : scene.nodes.Iterates order) {hydrated : GodotScene} :
    (scene.reconcile order).HydratesTo hydrated ↔ hydrated = scene := by
  constructor
  · intro hhydrates
    obtain ⟨fuel, stored, keys, hstored, hkeys, hdone⟩ := hhydrates
    obtain ⟨more, hback⟩ := (exists_hydrate_iff horder hstored hkeys).mpr ⟨hreadable, hlookalikes⟩
    obtain ⟨nodes, hcollect, hdedupe⟩ := hydrate_eq_done_iff.mp hback
    obtain ⟨result, hresult, hscene⟩ := Run.bind_eq_done_iff.mp hdone
    obtain ⟨found, hfound, hfoundDedupe⟩ := Run.bind_eq_done_iff.mp hresult
    cases hcollect.symm.trans hfound
    have hleft := dedupeNames_mono hdedupe (Nat.le_max_left more fuel)
    have hright := dedupeNames_mono hfoundDedupe (Nat.le_max_right more fuel)
    cases hscene
    rw [Run.done.inj (hright.symm.trans hleft)]
    rfl
  · rintro rfl
    obtain ⟨stored, hstored⟩ := (reconcileNodes order).exists_iterates
    obtain ⟨keys, hkeys⟩ := exists_visitsKeys stored
    obtain ⟨fuel, hback⟩ := (exists_hydrate_iff horder hstored hkeys).mpr ⟨hreadable, hlookalikes⟩
    exact ⟨fuel, stored, keys, hstored, hkeys, hback⟩

end GodotScene

/-! ## The example is written again -/

theorem tiesCommute_of_singleton {ν τ : Type} {key : String} {value : ν}
    {order : Entry String ν → τ} {text : Entry String ν → String} :
    (HashMap.collect [(⟨key, value⟩ : Entry String ν)]).TiesCommute order text := by
  intro first second hfirst hsecond _
  have hone := List.mem_singleton.mp (HashMap.mem_of_lookup_collect hfirst)
  have htwo := List.mem_singleton.mp (HashMap.mem_of_lookup_collect hsecond)
  rw [show first = second from hone.trans htwo.symm]

/-- No two entries of the example tie. -/
theorem tiesCommute_doorScene : doorScene.TiesCommute := by
  constructor
  · exact tiesCommute_of_singleton
  · intro key resource hresource
    cases List.mem_singleton.mp (HashMap.mem_of_lookup_collect hresource)
    exact tiesCommute_of_singleton
  · exact fun _ _ => tiesCommute_of_singleton
  · intro resource hresource
    cases hresource
  · intro _ _ key node _ _ hnode first second hfirst
    have hempty : ∀ entry ∈ familyEntries, entry.2.properties = ∅ := by decide
    have hnone : node.properties = ∅ := hempty _ (mem_familyEntries hnode)
    rw [hnone, Finmap.lookup_empty] at hfirst
    cases hfirst
  · exact fun _ _ _ _ _ _ => tiesCommute_of_singleton

theorem serializesAlike_doorScene : doorScene.SerializesAlike := by
  intro first second hfirst hsecond text
  constructor
  · exact fun htext => htext.of_ties tiesCommute_doorScene hfirst hsecond
  · exact fun htext => htext.of_ties tiesCommute_doorScene hsecond hfirst

end Backstitch
