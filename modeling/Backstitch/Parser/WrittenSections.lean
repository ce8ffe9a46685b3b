/-
# The sections of a written scene

Without a main resource the text of a scene is a row of sections: the header, the resources,
the nodes, the connections and the editable instances.  What stands between them are blank
lines.
-/

import Backstitch.Parser.Determinism
import Backstitch.Parser.Parse

namespace Backstitch

/-- The properties below a heading, in the order in which they are written. -/
def writtenProperties (order : List (Entry String OrderedProperty)) : List (String × String) :=
  (sortByKey (fun property => property.2.order) order).map fun property =>
    (property.1, property.2.value)

/-- The text of a section. -/
def Section.text (input : Section) : String :=
  headingText input.identifier input.attributes ++
    String.join (input.properties.map fun property => property.1 ++ " = " ++ property.2 ++ "\n")

def Visit.toSection (orders : IterationOrders) (visit : Visit) : Section where
  identifier := "node"
  attributes := visit.attributes
  properties := writtenProperties (orders.nodeProperties visit.key)

def connectionSection (attributes : List Attribute) : Section :=
  { identifier := "connection", attributes := attributes, properties := [] }

def editableSection (path : String) : Section :=
  { identifier := "editable", attributes := [("path", quoted path)], properties := [] }

def extResourceSection (entry : Entry String ExternalResourceNode) : Section where
  identifier := "ext_resource"
  attributes := GodotScene.extResourceAttributes id false entry.2
  properties := []

def subResourceSection (orders : IterationOrders) (entry : Entry String SubResourceNode) :
    Section where
  identifier := "sub_resource"
  attributes := GodotScene.subResourceAttributes entry.2
  properties := writtenProperties (orders.subResourceProperties entry.1)

namespace GodotScene

variable (scene : GodotScene)

def headerSection : Section :=
  { identifier := scene.headerIdentifier, attributes := scene.headerAttributes, properties := [] }

def extResourceSections (orders : IterationOrders) : List Section :=
  (sortByKey (fun entry => entry.2.idx) orders.extResources).map extResourceSection

def subResourceSections (orders : IterationOrders) : List Section :=
  (sortByKey (fun entry => entry.2.idx) orders.subResources).map (subResourceSection orders)

/-- The sections of a text with these nodes and these attributes of connections. -/
def sectionsWith (orders : IterationOrders) (visits : List Visit)
    (connections : List (List Attribute)) : List Section :=
  scene.headerSection :: extResourceSections orders ++ subResourceSections orders ++
    visits.map (Visit.toSection orders) ++ (connections.map connectionSection ++
      scene.editableInstances.map editableSection)

/-- The sections that one call of `serialize` writes for a scene without a main resource. -/
def writtenSections (orders : IterationOrders) (fuel : ℕ) : Run (List Section) := do
  let visits ← scene.rootVisits fuel
  let connections ← (sortedConnections orders visits).mapM fun entry =>
    scene.connectionAttributes fuel entry.2
  return scene.sectionsWith orders visits connections

end GodotScene

/-- A text that spells out sections, each with a blank line behind it or none. -/
inductive SpellsOut : List Section → String → Prop
  | nil : SpellsOut [] ""
  | cons (input : Section) {sections : List Section} {text : String} (blank : Bool)
      (hrest : SpellsOut sections text) :
      SpellsOut (input :: sections) (input.text ++ (if blank then "\n" else "") ++ text)

namespace SpellsOut

variable {α : Type} {sections more : List Section} {text rest : String}

theorem append (hsections : SpellsOut sections text) (hmore : SpellsOut more rest) :
    SpellsOut (sections ++ more) (text ++ rest) := by
  induction hsections with
  | nil => simpa using hmore
  | cons input blank _ ih =>
      rw [List.cons_append, String.append_assoc]
      exact .cons input blank ih

/-- Sections that are all followed by a blank line, or none of them. -/
theorem map (f : α → Section) (blank : Bool) (items : List α) :
    SpellsOut (items.map f)
      (String.join (items.map fun item => (f item).text ++ if blank then "\n" else "")) := by
  induction items with
  | nil => exact .nil
  | cons item items ih =>
      rw [List.map_cons, List.map_cons, String.join_cons]
      exact .cons (f item) blank ih

/-- The last section has a blank line behind it, or has none, unlike the others. -/
theorem map_concat (f : α → Section) (blank last : Bool) (front : List α) (item : α) :
    SpellsOut ((front ++ [item]).map f)
      (String.join (front.map fun item => (f item).text ++ if blank then "\n" else "") ++
        ((f item).text ++ if last then "\n" else "")) := by
  rw [List.map_append]
  apply (map f blank front).append
  have hitem := SpellsOut.cons (f item) last .nil
  rwa [String.append_empty] at hitem

/-- A blank line behind the last section at most. -/
theorem map_then (f : α → Section) (items : List α) (last : Bool)
    (hlast : last = true → items ≠ []) :
    SpellsOut (items.map f)
      (String.join (items.map fun item => (f item).text) ++ if last then "\n" else "") := by
  have hplain : ∀ items : List α, String.join (items.map fun item => (f item).text) =
      String.join (items.map fun item => (f item).text ++ if false then "\n" else "") := by
    simp
  rcases List.eq_nil_or_concat items with rfl | ⟨front, item, rfl⟩
  · cases last with
    | false => simpa using SpellsOut.nil
    | true => exact absurd rfl (hlast rfl)
  · have hspells := map_concat f false last front item
    rw [← hplain] at hspells
    have hjoin : String.join ((front ++ [item]).map fun item => (f item).text) =
        String.join (front.map fun item => (f item).text) ++ (f item).text := by simp
    rw [List.concat_eq_append, hjoin, String.append_assoc]
    exact hspells

end SpellsOut

/-! ## The text of the sections -/

theorem text_connectionSection (attributes : List Attribute) :
    (connectionSection attributes).text = headingText "connection" attributes := by
  simp [connectionSection, Section.text]

theorem text_editableSection (path : String) :
    (editableSection path).text = GodotScene.editableText path := by
  simp [editableSection, Section.text, GodotScene.editableText]

theorem join_writtenProperties (order : List (Entry String OrderedProperty)) :
    String.join ((writtenProperties order).map fun property =>
      property.1 ++ " = " ++ property.2 ++ "\n") = propertiesText order := by
  rw [writtenProperties, List.map_map]
  rfl

theorem Visit.text_eq (orders : IterationOrders) (visit : Visit) :
    visit.text orders = (visit.toSection orders).text ++ "\n" := by
  rw [Visit.text, Section.text, Visit.toSection, join_writtenProperties]

theorem subResourceText_eq (orders : IterationOrders) (entry : Entry String SubResourceNode) :
    GodotScene.subResourceText orders entry = (subResourceSection orders entry).text ++ "\n" := by
  rw [GodotScene.subResourceText, Section.text, subResourceSection, join_writtenProperties]

namespace GodotScene

variable {scene : GodotScene} {orders : IterationOrders}

/-- A map that is not empty is iterated over one entry at least. -/
theorem sortByKey_ne_nil {κ ν τ : Type} [LinearOrder τ] {map : HashMap κ ν}
    {order : List (Entry κ ν)} (horder : map.Iterates order) (key : Entry κ ν → τ)
    (hmap : map ≠ ∅) : sortByKey key order ≠ [] := by
  intro hsorted
  apply hmap
  have hperm := sortByKey_perm key order
  rw [hsorted, List.nil_perm] at hperm
  subst hperm
  exact Finmap.ext horder.symm

theorem spellsOut_resources (horders : orders.Of scene) :
    SpellsOut (scene.headerSection :: extResourceSections orders ++ subResourceSections orders)
      (scene.resourcesText id false orders) := by
  have hext := SpellsOut.map_then extResourceSection
    (sortByKey (fun entry => entry.2.idx) orders.extResources)
    (decide (scene.extResources ≠ ∅)) fun hsome =>
      sortByKey_ne_nil horders.extResources _ (of_decide_eq_true hsome)
  have hsub := SpellsOut.map (subResourceSection orders) true
    (sortByKey (fun entry => entry.2.idx) orders.subResources)
  have hall := (SpellsOut.cons scene.headerSection true hext).append hsub
  have hheader : scene.headerSection.text =
      headingText scene.headerIdentifier scene.headerAttributes := by
    simp [headerSection, Section.text]
  have hresource : ∀ entry : Entry String ExternalResourceNode, (extResourceSection entry).text =
      headingText "ext_resource" (extResourceAttributes id false entry.2) := by
    simp [extResourceSection, Section.text]
  simp only [hheader, hresource, ← subResourceText_eq, if_true, decide_eq_true_eq, ite_not,
    String.append_assoc] at hall
  simp only [resourcesText, String.append_assoc]
  exact hall

theorem spellsOut_nodes (visits : List Visit) :
    SpellsOut (visits.map (Visit.toSection orders)) (scene.nodesText orders visits) := by
  have hall := SpellsOut.map (Visit.toSection orders) true visits
  simp only [if_true, ← Visit.text_eq] at hall
  rw [nodesText]
  split
  · next hlast =>
    -- The blank line behind the last node is taken back.
    obtain ⟨front, last, rfl⟩ := (List.eq_nil_or_concat visits).resolve_left hlast.1
    have hspells := SpellsOut.map_concat (Visit.toSection orders) true false front last
    have hjoin : (String.join ((front ++ [last]).map (Visit.text orders))).toList =
        (String.join (front.map (Visit.text orders)) ++ (last.toSection orders).text).toList ++
          "\n".toList := by
      rw [← String.toList_append, List.map_append, String.join_append, List.map_cons, List.map_nil,
        String.join_cons, String.join_nil, String.append_empty, Visit.text_eq orders last,
        String.append_assoc]
    have hmark : "\n".toList = ['\n'] := rfl
    simp only [if_true, Bool.false_eq_true, if_false, String.append_empty,
      ← Visit.text_eq] at hspells
    rw [List.concat_eq_append, hjoin, hmark, List.dropLast_concat, String.ofList_toList]
    exact hspells
  · exact hall

/-- The texts of connections are those of their attributes. -/
theorem exists_connectionAttributes {fuel : ℕ} {entries : List (Entry String GodotConnection)}
    {texts : List String}
    (hdone : entries.mapM (fun entry => scene.connectionText fuel entry.2) = .done texts) :
    ∃ attributes, entries.mapM (fun entry => scene.connectionAttributes fuel entry.2) =
        .done attributes ∧ texts = attributes.map (headingText "connection") := by
  rw [Run.mapM_eq_done_iff] at hdone
  simp only [Run.mapM_eq_done_iff]
  induction hdone with
  | nil => exact ⟨[], .nil, rfl⟩
  | cons hfirst _ ih =>
      obtain ⟨rest, hrest, rfl⟩ := ih
      obtain ⟨attributes, hattributes, htext⟩ := Run.bind_eq_done_iff.mp hfirst
      cases htext
      exact ⟨attributes :: rest, .cons hattributes hrest, rfl⟩

theorem spellsOut_connections {attributes : List (List Attribute)}
    (hattributes : scene.connections ≠ ∅ → attributes ≠ []) :
    SpellsOut (attributes.map connectionSection ++ scene.editableInstances.map editableSection)
      (String.join (attributes.map (headingText "connection")) ++ scene.editablesText) := by
  have hconnections := SpellsOut.map_then connectionSection attributes
    (decide (scene.connections ≠ ∅ ∧ scene.editableInstances ≠ [])) fun hsome =>
      hattributes (of_decide_eq_true hsome).1
  have hall := hconnections.append (SpellsOut.map editableSection false scene.editableInstances)
  simp only [text_connectionSection, text_editableSection, decide_eq_true_eq,
    Bool.false_eq_true, if_false, String.append_empty, String.append_assoc] at hall
  rw [editablesText]
  exact hall

/-- **The text is that of the sections, one after the other.** -/
theorem exists_writtenSections (hmain : scene.mainResource = none) (horders : orders.Of scene)
    {fuel : ℕ} {text : String} (hdone : scene.serialize orders fuel = .done text) :
    ∃ sections, scene.writtenSections orders fuel = .done sections ∧ SpellsOut sections text := by
  obtain ⟨visits, texts, hvisits, htexts, rfl⟩ := (scene.serialize_eq_done_iff hmain).mp hdone
  obtain ⟨attributes, hattributes, rfl⟩ := exists_connectionAttributes htexts
  refine ⟨scene.sectionsWith orders visits attributes, ?_, ?_⟩
  · rw [writtenSections, hvisits, Run.done_bind, hattributes, Run.done_bind, Run.pure_eq_done]
  · have hnonempty : scene.connections ≠ ∅ → attributes ≠ [] := by
      rintro hsome rfl
      rw [Run.mapM_eq_done_iff, List.forall₂_nil_right_iff] at hattributes
      exact sortByKey_ne_nil horders.connections _ hsome hattributes
    have hnodes : SpellsOut (visits.map (Visit.toSection orders)) (scene.nodesText orders visits) :=
      spellsOut_nodes visits
    have hall := ((spellsOut_resources horders).append hnodes).append
      (spellsOut_connections hnonempty)
    rwa [← String.append_assoc] at hall

end GodotScene

end Backstitch
