/-
# The trip through the document

A scene that was read is reconciled into a document and hydrated back.  The keys
of its nodes make the trip as text, and hydration renames siblings that look
alike.  The scene comes back unchanged exactly when the text of every id reads as
that id and no two siblings look alike.
-/

import Backstitch.Parser.Parse
import Backstitch.Parser.Replicas

namespace Backstitch

namespace NodeId

/-- The ids whose text can be read back: a dash is only ever a separator, and an
empty list of instances would leave no trace. -/
def Readable (nodeId : NodeId) : Prop :=
  0 ≤ nodeId.id ∧ nodeId.rootInstanceId ≠ some [] ∧
    ∀ rootInstanceId, nodeId.rootInstanceId = some rootInstanceId →
      ∀ id ∈ rootInstanceId, 0 ≤ id

/-- The numbers that the text of an id shows. -/
def numbers (nodeId : NodeId) : List Int32 := nodeId.id :: nodeId.rootInstanceId.getD []

theorem display_eq (nodeId : NodeId) :
    nodeId.display = displayI32 nodeId.id ++ String.join
      ((nodeId.rootInstanceId.getD []).map fun id => "-" ++ displayI32 id) := by
  unfold display
  cases nodeId.rootInstanceId with
  | none => simp
  | some rootInstanceId => rfl

/-- The text of an id falls apart at its separators, and further at every sign. -/
theorem splitAtChar_join (first : Int32) (rest : List Int32) :
    splitAtChar '-' (displayI32 first ++
        String.join (rest.map fun id => "-" ++ displayI32 id)) =
      (first :: rest).flatMap fun id => splitAtChar '-' (displayI32 id) := by
  induction rest generalizing first with
  | nil => simp
  | cons second rest ih =>
      have hsplit := splitAtChar_append '-' (displayI32 first)
        (displayI32 second ++ String.join (rest.map fun id => "-" ++ displayI32 id))
      rw [ih] at hsplit
      rw [List.flatMap_cons, ← hsplit, List.map_cons, String.join_cons]
      simp only [String.append_assoc]
      rfl

theorem splitAtChar_display (nodeId : NodeId) :
    splitAtChar '-' nodeId.display =
      nodeId.numbers.flatMap fun id => splitAtChar '-' (displayI32 id) := by
  rw [display_eq, splitAtChar_join, numbers]

theorem parsePart_displayI32 (text : String) (value : Int32) :
    parsePart text (displayI32 value) = .done value := by
  simp [parsePart]

/-- An empty part is no number. -/
theorem fromStr_of_empty_mem {text : String} (hempty : "" ∈ splitAtChar '-' text)
    (result : NodeId) : fromStr text ≠ .done result := by
  have hnone : ∀ value, parsePart text "" ≠ .done value := by
    intro value hdone
    have hparse : parseI32 "" = none := by decide
    simp [parsePart, hparse] at hdone
  intro hdone
  unfold fromStr at hdone
  cases hparts : splitAtChar '-' text with
  | nil => simp [hparts] at hempty
  | cons first rest =>
      rw [hparts] at hdone hempty
      obtain ⟨id, hfirst, hrest⟩ := Run.bind_eq_done_iff.mp hdone
      rcases List.mem_cons.mp hempty with heq | hmem
      · exact hnone id (heq ▸ hfirst)
      · rw [if_neg (List.ne_nil_of_mem hmem)] at hrest
        obtain ⟨values, hvalues, -⟩ := Run.bind_eq_done_iff.mp hrest
        obtain ⟨value, -, hvalue⟩ := Run.exists_of_mapM_done hvalues hmem
        exact hnone value hvalue

/-- Reading the text of an id whose numbers have no sign. -/
theorem fromStr_display_of_forall {nodeId : NodeId} (hnumbers : ∀ id ∈ nodeId.numbers, 0 ≤ id) :
    fromStr nodeId.display = .done ⟨nodeId.id,
      if nodeId.rootInstanceId.getD [] = [] then none else nodeId.rootInstanceId⟩ := by
  have hparts : splitAtChar '-' nodeId.display = nodeId.numbers.map displayI32 := by
    have hone : ∀ id ∈ nodeId.numbers, splitAtChar '-' (displayI32 id) = [displayI32 id] :=
      fun id hid => splitAtChar_of_not_mem (dash_not_mem_displayI32 (hnumbers id hid))
    rw [splitAtChar_display, List.flatMap_congr hone, ← List.map_eq_flatMap]
  rw [fromStr, hparts, numbers, List.map_cons]
  simp only [parsePart_displayI32, Run.done_bind]
  cases hroot : nodeId.rootInstanceId with
  | none => rfl
  | some rootInstanceId =>
      have hvalues : (rootInstanceId.map displayI32).mapM (parsePart nodeId.display) =
          .done rootInstanceId := by
        rw [Run.mapM_eq_done_iff, List.forall₂_map_left_iff, List.forall₂_same]
        exact fun id _ => parsePart_displayI32 _ id
      by_cases hempty : rootInstanceId = []
      · subst hempty
        rfl
      · simp [hempty, hvalues]

/-- Whatever the text of an id reads as is readable. -/
theorem readable_of_fromStr_display {nodeId result : NodeId}
    (hdone : fromStr nodeId.display = .done result) : result.Readable := by
  have hnumbers : ∀ id ∈ nodeId.numbers, 0 ≤ id := by
    intro id hid
    by_contra hneg
    refine fromStr_of_empty_mem ?_ result hdone
    rw [splitAtChar_display]
    exact List.mem_flatMap.mpr ⟨id, hid, empty_mem_splitAtChar_displayI32 hneg⟩
  rw [fromStr_display_of_forall hnumbers] at hdone
  cases hdone
  refine ⟨hnumbers _ (by simp [numbers]), ?_, fun rootInstanceId hroot id hid => ?_⟩
  · split
    · simp
    · rename_i hne
      intro heq
      exact hne (by rw [heq]; rfl)
  · refine hnumbers id (List.mem_cons_of_mem _ ?_)
    split at hroot
    · nomatch hroot
    · rw [hroot]
      exact hid

theorem Readable.fromStr_display {nodeId : NodeId} (hreadable : nodeId.Readable) :
    fromStr nodeId.display = .done nodeId := by
  obtain ⟨hid, hne, hroots⟩ := hreadable
  have hnumbers : ∀ id ∈ nodeId.numbers, 0 ≤ id := by
    intro id hmem
    rcases List.mem_cons.mp hmem with rfl | hmem
    · exact hid
    · cases hroot : nodeId.rootInstanceId with
      | none => simp [hroot] at hmem
      | some rootInstanceId =>
          rw [hroot] at hmem
          exact hroots rootInstanceId hroot id hmem
  rw [fromStr_display_of_forall hnumbers]
  obtain ⟨id, rootInstanceId⟩ := nodeId
  cases rootInstanceId with
  | none => rfl
  | some rootInstanceId =>
      have hnonempty : rootInstanceId ≠ [] := by
        rintro rfl
        exact hne rfl
      simp [hnonempty]

/-- Different readable ids have different texts. -/
theorem Readable.display_inj {first second : NodeId} (hfirst : first.Readable)
    (hsecond : second.Readable) (hsame : first.display = second.display) : first = second := by
  have hread := hfirst.fromStr_display
  rw [hsame, hsecond.fromStr_display] at hread
  exact (Run.done.inj hread).symm

end NodeId

/-! ## The nodes -/

/-- No node is listed by its parent next to another one with the same name and the
same parent fallback. -/
def NoLookalikes (nodes : HashMap NodeId GodotNode) : Prop :=
  ∀ id ∈ nodes, ∀ other ∈ readsNames nodes id, nodeName nodes other ≠ nodeName nodes id

/-- Whichever way the maps are iterated, the scene comes back from the document. -/
def GodotScene.SurvivesTrip (scene : GodotScene) : Prop :=
  ∀ order stored keys, scene.nodes.Iterates order →
    (scene.reconcile order).nodes.Iterates stored → VisitsKeys stored keys →
    ∃ fuel, (scene.reconcile order).hydrate fuel stored keys = .done scene

theorem noLookalikes_iff {nodes : HashMap NodeId GodotNode} {keys : List NodeId}
    (hnodup : keys.Nodup) (hkeys : ∀ id, id ∈ keys ↔ id ∈ nodes) :
    Renaming.Visits incrementName (readsNames nodes) (nodeName nodes) keys (nodeName nodes) ↔
      NoLookalikes nodes := by
  rw [Renaming.visits_self_iff hnodup]
  simp only [hkeys, Set.mem_image, not_exists, not_and]
  rfl

section Trip

variable {scene : GodotScene} {order : List (Entry NodeId GodotNode)}
  {stored : List (Entry String GodotNode)} {keys : List NodeId}

theorem exists_display_of_mem_stored
    (hstored : (reconcileNodes order).Iterates stored) {entry : Entry String GodotNode}
    (hentry : entry ∈ stored) : ∃ found ∈ order, entry = ⟨found.1.display, found.2⟩ := by
  obtain ⟨text, node⟩ := entry
  obtain ⟨found, hfound, heq⟩ :=
    List.mem_map.mp (HashMap.mem_of_lookup_collect (hstored.mem_iff.mp hentry))
  exact ⟨found, hfound, heq.symm⟩

theorem nodup_displays (hreadable : ∀ id ∈ scene.nodes, id.Readable)
    (horder : scene.nodes.Iterates order) :
    ((order.map fun entry : Entry NodeId GodotNode =>
      (⟨entry.1.display, entry.2⟩ : Entry String GodotNode)).map Sigma.fst).Nodup := by
  have hread : ∀ entry ∈ order, entry.1.Readable := fun entry hentry =>
    hreadable entry.1 (Finmap.mem_of_lookup_eq_some (horder.mem_iff.mp hentry))
  rw [List.map_map]
  have hkeys := List.pairwise_map.mp horder.keys_nodup
  refine List.pairwise_map.mpr (hkeys.imp_of_mem ?_)
  intro first second hfirst hsecond hne hsame
  exact hne ((hread first hfirst).display_inj (hread second hsecond) hsame)

/-- The document finds a readable id's node under the text of that id. -/
theorem lookup_reconcileNodes_iff (hreadable : ∀ id ∈ scene.nodes, id.Readable)
    (horder : scene.nodes.Iterates order) {key : String} {node : GodotNode} :
    (reconcileNodes order).lookup key = some node ↔
      ∃ id, id.display = key ∧ scene.nodes.lookup id = some node := by
  rw [reconcileNodes, HashMap.lookup_collect (nodup_displays hreadable horder), List.mem_map]
  constructor
  · intro ⟨⟨id, found⟩, hfound, heq⟩
    cases heq
    exact ⟨id, rfl, horder.mem_iff.mp hfound⟩
  · intro ⟨id, hkey, hnode⟩
    exact ⟨⟨id, node⟩, horder.mem_iff.mpr hnode, by rw [hkey]⟩

/-- Where every key is the text of a readable id, hydration finds under an id what
is stored under its text. -/
theorem lookup_collectNodes_iff {map : HashMap String GodotNode}
    {nodes : HashMap NodeId GodotNode}
    (hkeys : ∀ key ∈ map, ∃ id : NodeId, id.Readable ∧ id.display = key)
    (horder : map.Iterates stored) (hcollect : collectNodes stored = .done nodes)
    {id : NodeId} {node : GodotNode} :
    nodes.lookup id = some node ↔ id.Readable ∧ map.lookup id.display = some node := by
  have hread : ∀ entry ∈ stored, ∃ found : NodeId, found.Readable ∧ found.display = entry.1 ∧
      readKey entry = .done ⟨found, entry.2⟩ := by
    intro entry hentry
    obtain ⟨found, hfound, hdisplay⟩ :=
      hkeys entry.1 (Finmap.mem_of_lookup_eq_some (horder.mem_iff.mp hentry))
    refine ⟨found, hfound, hdisplay, ?_⟩
    rw [readKey, ← hdisplay, hfound.fromStr_display]
  obtain ⟨entries, hentries, hresult⟩ := Run.bind_eq_done_iff.mp hcollect
  cases hresult
  have hnodup : (entries.map Sigma.fst).Nodup := by
    rw [List.Nodup, List.pairwise_map]
    apply Run.pairwise_of_mapM_done hentries (List.pairwise_map.mp horder.keys_nodup)
    intro first hfirst second hsecond hne one two hone htwo hsame
    obtain ⟨_, -, hdisplayOne, hreadOne⟩ := hread first hfirst
    obtain ⟨_, -, hdisplayTwo, hreadTwo⟩ := hread second hsecond
    cases hone.symm.trans hreadOne
    cases htwo.symm.trans hreadTwo
    exact hne (hdisplayOne.symm.trans ((congrArg NodeId.display hsame).trans hdisplayTwo))
  rw [HashMap.lookup_collect hnodup]
  constructor
  · intro hmem
    obtain ⟨entry, hentry, hdone⟩ := Run.exists_of_mem_mapM hentries hmem
    obtain ⟨found, hfound, hdisplay, hreads⟩ := hread entry hentry
    cases hdone.symm.trans hreads
    rw [hdisplay]
    exact ⟨hfound, horder.mem_iff.mp hentry⟩
  · intro ⟨hid, hlookup⟩
    obtain ⟨result, hresult, hdone⟩ :=
      Run.exists_of_mapM_done hentries (horder.mem_iff.mpr hlookup)
    rw [readKey, hid.fromStr_display] at hdone
    cases hdone
    exact hresult

/-- Readable ids come back from the document with their nodes. -/
theorem collectNodes_of_readable (hreadable : ∀ id ∈ scene.nodes, id.Readable)
    (horder : scene.nodes.Iterates order) (hstored : (reconcileNodes order).Iterates stored) :
    collectNodes stored = .done scene.nodes := by
  have hkeys : ∀ key ∈ reconcileNodes order, ∃ id : NodeId, id.Readable ∧ id.display = key := by
    intro key hkey
    obtain ⟨node, hnode⟩ := Finmap.mem_iff.mp hkey
    obtain ⟨id, hdisplay, hid⟩ := (lookup_reconcileNodes_iff hreadable horder).mp hnode
    exact ⟨id, hreadable id (Finmap.mem_of_lookup_eq_some hid), hdisplay⟩
  have hvalues : ∀ entry ∈ stored, ∃ found, readKey entry = .done found := by
    intro entry hentry
    obtain ⟨id, hid, hdisplay⟩ :=
      hkeys entry.1 (Finmap.mem_of_lookup_eq_some (hstored.mem_iff.mp hentry))
    exact ⟨⟨id, entry.2⟩, by rw [readKey, ← hdisplay, hid.fromStr_display]⟩
  obtain ⟨nodes, hcollect⟩ : ∃ nodes, collectNodes stored = .done nodes := by
    obtain ⟨_, entries, hentries⟩ := @Run.exists_mapM_done _ _ (fun _ => readKey) stored
      (fun entry hentry => ⟨0, hvalues entry hentry⟩) fun _ _ _ _ hdone _ => hdone
    exact ⟨_, Run.bind_eq_done_iff.mpr ⟨entries, hentries, rfl⟩⟩
  rw [hcollect]
  congr 1
  apply Finmap.ext_lookup
  intro id
  ext node
  rw [lookup_collectNodes_iff hkeys hstored hcollect,
    lookup_reconcileNodes_iff hreadable horder]
  constructor
  · intro ⟨hid, other, hdisplay, hother⟩
    have hreadOther := hreadable other (Finmap.mem_of_lookup_eq_some hother)
    rwa [hid.display_inj hreadOther hdisplay.symm]
  · intro hnode
    exact ⟨hreadable id (Finmap.mem_of_lookup_eq_some hnode), id, rfl, hnode⟩

/-- Only readable ids come back. -/
theorem readable_of_collectNodes (hstored : (reconcileNodes order).Iterates stored)
    {nodes : HashMap NodeId GodotNode} (hcollect : collectNodes stored = .done nodes)
    {id : NodeId} (hid : id ∈ nodes) : id.Readable := by
  obtain ⟨entries, hentries, hresult⟩ := Run.bind_eq_done_iff.mp hcollect
  cases hresult
  obtain ⟨node, hnode⟩ := Finmap.mem_iff.mp hid
  obtain ⟨entry, hentry, hread⟩ :=
    Run.exists_of_mem_mapM hentries (HashMap.mem_of_lookup_collect hnode)
  obtain ⟨found, -, rfl⟩ := exists_display_of_mem_stored hstored hentry
  unfold readKey at hread
  cases htext : NodeId.fromStr found.1.display with
  | done result =>
      simp only [htext, Run.done.injEq, Sigma.mk.injEq] at hread
      exact hread.1 ▸ NodeId.readable_of_fromStr_display htext
  | _ => simp [htext] at hread

theorem hydrate_eq_done_iff {fuel : ℕ} :
    (scene.reconcile order).hydrate fuel stored keys = .done scene ↔
      ∃ nodes, collectNodes stored = .done nodes ∧
        keys.foldlM (dedupeName fuel) nodes = .done scene.nodes := by
  rw [StoredScene.hydrate, Run.bind_eq_done_iff]
  constructor
  · intro ⟨nodes, hnodes, hscene⟩
    have hsame : nodes = scene.nodes := congrArg GodotScene.nodes (Run.done.inj hscene)
    rw [hsame] at hnodes
    exact Run.bind_eq_done_iff.mp hnodes
  · intro hnodes
    exact ⟨scene.nodes, Run.bind_eq_done_iff.mpr hnodes, rfl⟩

/-- A run of the trip brings the scene back exactly when its ids are readable and
no siblings look alike. -/
theorem exists_hydrate_iff (horder : scene.nodes.Iterates order)
    (hstored : (reconcileNodes order).Iterates stored) (hkeys : VisitsKeys stored keys) :
    (∃ fuel, (scene.reconcile order).hydrate fuel stored keys = .done scene) ↔
      (∀ id ∈ scene.nodes, id.Readable) ∧ NoLookalikes scene.nodes := by
  simp only [hydrate_eq_done_iff]
  have hnames : collectNodes stored = .done scene.nodes →
      ((∃ fuel, keys.foldlM (dedupeName fuel) scene.nodes = .done scene.nodes) ↔
        NoLookalikes scene.nodes) := by
    intro hcollect
    obtain ⟨hnodup, hmem⟩ := hkeys _ hcollect
    rw [exists_dedupeNames_iff fun id hid => (hmem id).mp hid, ← noLookalikes_iff hnodup hmem]
    constructor
    · intro ⟨names, hvisits, hrenamed⟩
      rwa [← hrenamed.nodeName_eq_of_visits (fun id hid => (hmem id).mp hid) hvisits] at hvisits
    · intro hvisits
      exact ⟨_, hvisits, .refl _⟩
  constructor
  · intro ⟨fuel, nodes, hcollect, hdone⟩
    obtain ⟨hnodup, hmem⟩ := hkeys _ hcollect
    obtain ⟨names, hvisits, hrenamed⟩ :=
      (exists_dedupeNames_iff fun id hid => (hmem id).mp hid).mp ⟨fuel, hdone⟩
    have hreadable : ∀ id ∈ scene.nodes, id.Readable := fun id hid =>
      readable_of_collectNodes hstored hcollect (hrenamed.mem_iff.mp hid)
    have hagain := collectNodes_of_readable hreadable horder hstored
    cases hcollect.symm.trans hagain
    exact ⟨hreadable, (hnames hagain).mp ⟨fuel, hdone⟩⟩
  · intro ⟨hreadable, hdistinct⟩
    have hcollect := collectNodes_of_readable hreadable horder hstored
    obtain ⟨fuel, hdone⟩ := (hnames hcollect).mpr hdistinct
    exact ⟨fuel, scene.nodes, hcollect, hdone⟩

theorem exists_visitsKeys (stored : List (Entry String GodotNode)) :
    ∃ keys, VisitsKeys stored keys := by
  cases hcollect : collectNodes stored with
  | done nodes =>
      exact ⟨nodes.keys.toList, visitsKeys_of_keys_eq hcollect nodes.keys.nodup_toList (by simp)⟩
  | _ => exact ⟨[], fun nodes hdone => by simp [hcollect] at hdone⟩

/-- There is always some trip, so surviving every trip is surviving that one. -/
theorem readable_of_survivesTrip (hsurvives : scene.SurvivesTrip) :
    (∀ id ∈ scene.nodes, id.Readable) ∧ NoLookalikes scene.nodes := by
  obtain ⟨order, horder⟩ := scene.nodes.exists_iterates
  obtain ⟨stored, hstored⟩ := (reconcileNodes order).exists_iterates
  obtain ⟨keys, hkeys⟩ := exists_visitsKeys stored
  exact (exists_hydrate_iff horder hstored hkeys).mp
    (hsurvives order stored keys horder hstored hkeys)

end Trip

/-- **A scene survives the trip through the document exactly when every id can be
read back from its text and no two siblings look alike.** -/
theorem GodotScene.survivesTrip_iff (scene : GodotScene) :
    scene.SurvivesTrip ↔ (∀ id ∈ scene.nodes, id.Readable) ∧ NoLookalikes scene.nodes := by
  constructor
  · exact readable_of_survivesTrip
  · intro hscene order stored keys horder hstored hkeys
    exact (exists_hydrate_iff horder hstored hkeys).mpr hscene

/-- A text in which a node below the root carries a negative id. -/
def negativeIdSections : List Section :=
  [⟨"gd_scene", [("format", "3"), ("uid", "\"uid://scene\"")], []⟩,
    ⟨"node", [("name", "\"Root\""), ("type", "\"Node\""), ("unique_id", "1")], []⟩,
    ⟨"node", [("name", "\"A\""), ("type", "\"Node\""), ("parent", "\".\""),
      ("unique_id", "-5")], []⟩]

/-- The text is read, and hydrating its scene panics on the key `-5`. -/
theorem negativeId_not_survivesTrip :
    ∃ scene, ParsesTo ⟨fun _ => 7, fun _ => ""⟩ negativeIdSections scene ∧
      ¬ scene.SurvivesTrip := by
  obtain ⟨scene, hparse, hnode⟩ : ∃ scene,
      parseScene ⟨fun _ => 7, fun _ => ""⟩ 1 negativeIdSections = .done scene ∧
        (⟨-5, none⟩ : NodeId) ∈ scene.nodes := ⟨_, rfl, by decide⟩
  refine ⟨scene, ⟨1, hparse⟩, fun hsurvives => ?_⟩
  have hnonneg := ((readable_of_survivesTrip hsurvives).1 _ hnode).1
  exact absurd hnonneg (by decide)

end Backstitch
