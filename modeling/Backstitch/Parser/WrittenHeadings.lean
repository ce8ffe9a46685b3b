/-
# Reading written headings

What a section was written with is what the first pass of `parse_scene` reads from it: quoted
texts come back without their quotation marks, and nothing that is required is missing.
-/

import Backstitch.Parser.FirstPass
import Backstitch.Parser.SectionReads
import Backstitch.Parser.TreeVisits
import Backstitch.Parser.WrittenSections

namespace Backstitch

/-- The values are ones that the grammar knows: a lone quotation mark is none of them. -/
def Section.Lexical (input : Section) : Prop := ∀ item ∈ input.attributes, item.2 ≠ "\""

/-! ## Attributes -/

theorem unquote_quoted (value : String) : unquote (quoted value) = .done value := by
  have hlist : (quoted value).toList = '"' :: (value.toList ++ ['"']) := by
    simp [quoted]
  unfold unquote
  rw [hlist]
  split
  · rename_i hshort
    simp at hshort
  · rename_i hcons
    obtain ⟨-, rfl⟩ := List.cons.inj hcons
    simp
  · rename_i hother
    exact absurd rfl (hother _)

theorem not_lacksBrackets_serializeInt32Array (array : List Int32) :
    ¬ LacksBrackets (serializeInt32Array array) := by
  obtain ⟨inner, hinner⟩ : ∃ inner, serializeInt32Array array =
      "PackedInt32Array(" ++ (inner ++ ")") := ⟨_, String.append_assoc⟩
  have hstrip : (stripPrefix "PackedInt32Array(" (serializeInt32Array array)).bind
      (stripSuffix ")") = some inner := by
    rw [hinner, stripPrefix_append, Option.bind_some, stripSuffix_append]
  intro hlacks
  nomatch hlacks.symm.trans hstrip

namespace Section

variable {input : Section} {key value : String}

/-- A value that is read stands in the heading. -/
theorem mem_of_heading (hvalue : input.heading key = some value) :
    (key, value) ∈ input.attributes := by
  obtain ⟨before, after, hattributes, -⟩ := List.lookup_eq_some_iff.mp hvalue
  rw [← List.mem_reverse, hattributes]
  exact List.mem_append_right _ List.mem_cons_self

/-- A section is accepted if it has what it needs, in a form that can be read. -/
theorem Lexical.accepted (hlexical : input.Lexical)
    (hformat : .format ∈ input.readings → input.optionalInteger "format" ≠ none)
    (hrequired : ∀ key, .required key ∈ input.readings → input.heading key ≠ none)
    (harrays : ∀ key value, .array key ∈ input.readings → input.heading key = some value →
      ¬ LacksBrackets value) : input.Accepted := by
  have hmark : ∀ key, input.heading key ≠ some "\"" := fun key hvalue =>
    hlexical _ (mem_of_heading hvalue) rfl
  intro reading hreading
  cases reading with
  | format => exact ⟨id, hformat hreading⟩
  | required key =>
      exact ⟨hmark key, hrequired key hreading⟩
  | optional key => exact ⟨hmark key, id⟩
  | array key =>
      refine ⟨?_, id⟩
      rintro ⟨value, hvalue, hlacks⟩
      exact harrays key value hreading hvalue hlacks

theorem required_of_quoted (hvalue : input.heading key = some (quoted value)) (place : String) :
    input.required key place = .done value := by
  rw [required, hvalue]
  exact unquote_quoted value

end Section

theorem mem_optionalAttribute {key : String} {value : Option String} {item : Attribute} :
    item ∈ optionalAttribute key value ↔ ∃ text, value = some text ∧ item = (key, text) := by
  cases value <;> simp [optionalAttribute]

theorem lookup_optionalAttribute (key other : String) (value : Option String) :
    (optionalAttribute key value).reverse.lookup other = if other = key then value else none := by
  cases value with
  | none => simp [optionalAttribute]
  | some value =>
      simp only [optionalAttribute, Option.toList_some, List.map_cons, List.map_nil,
        List.reverse_singleton, List.lookup_cons, List.lookup_nil]
      split <;> simp_all

/-! ## Node sections -/

namespace GodotScene

variable {scene : GodotScene} {root : NodeId} {orders : IterationOrders} {visit : Visit}
  {parentPath : Option String}

theorem lookup_typeAttributes (node : GodotNode) (key : String) (hkey : key ≠ "type") :
    (typeAttributes node).reverse.lookup key = none := by
  unfold typeAttributes
  split
  · simp [hkey]
  · rfl

theorem lookup_instanceAttributes (node : GodotNode) (key : String) (hkey : key ≠ "instance") :
    (instanceAttributes node).reverse.lookup key = none := by
  unfold instanceAttributes
  split
  · simp [hkey]
  · rfl

theorem lookup_ownerAttributes (node : GodotNode) (key : String) (howner : key ≠ "owner")
    (hpath : key ≠ "owner_uid_path") : (ownerAttributes node).reverse.lookup key = none := by
  unfold ownerAttributes
  split
  · rfl
  · simp [List.lookup_append, lookup_optionalAttribute, howner, hpath]

theorem lookup_parentPathAttributes (node : GodotNode) (parentPath : Option String) (key : String)
    (hpath : key ≠ "parent_id_path") : (parentPathAttributes node parentPath).reverse.lookup key =
      if key = "parent" then parentPath.map quoted else none := by
  cases parentPath with
  | none => simp [parentPathAttributes]
  | some parentPath =>
      simp only [parentPathAttributes, List.reverse_cons, List.lookup_append,
        lookup_optionalAttribute, if_neg hpath, Option.none_or, Option.map_some, List.lookup_cons,
        List.lookup_nil]
      split <;> simp_all

/-- What is found in the heading of a node section. -/
structure HeadsNode (input : Section) (node : GodotNode) (parentPath : Option String) : Prop where
  name : input.heading "name" = some (quoted node.name)
  uniqueId : input.heading "unique_id" = some (displayI32 node.id.id)
  parent : input.heading "parent" = parentPath.map quoted
  typeValue : input.heading "type" = (typeAttributes node).reverse.lookup "type"
  instanceValue : input.heading "instance" = (instanceAttributes node).reverse.lookup "instance"
  parentIdPath : input.heading "parent_id_path" =
    parentPath.bind fun _ => node.parentIdPath.map serializeInt32Array
  ownerUidPath : input.heading "owner_uid_path" =
    node.owner.bind fun _ => node.ownerUidPath.map serializeInt32Array

theorem VisitsNode.headsNode (hvisit : scene.VisitsNode root visit parentPath) :
    HeadsNode (visit.toSection orders) visit.node parentPath := by
  have hattributes : (visit.toSection orders).attributes =
      nodeAttributesWith visit.node (parentPathAttributes visit.node parentPath) :=
    hvisit.attributes
  have hparent : (parentPathAttributes visit.node parentPath).reverse.lookup "parent_id_path" =
      parentPath.bind fun _ => visit.node.parentIdPath.map serializeInt32Array := by
    cases parentPath <;> simp [parentPathAttributes, List.lookup_append, lookup_optionalAttribute,
      List.lookup_cons]
  have howner : (ownerAttributes visit.node).reverse.lookup "owner_uid_path" =
      visit.node.owner.bind fun _ => visit.node.ownerUidPath.map serializeInt32Array := by
    unfold ownerAttributes
    cases visit.node.owner <;> simp [List.lookup_append, lookup_optionalAttribute,
      List.lookup_cons]
  constructor <;>
    simp [Section.heading, hattributes, nodeAttributesWith, List.lookup_append, List.lookup_cons,
      lookup_optionalAttribute, lookup_typeAttributes, lookup_instanceAttributes,
      lookup_ownerAttributes, lookup_parentPathAttributes, hparent, howner]

theorem not_lacksBrackets_of_map {array : Option (List Int32)} {value : String}
    (hvalue : array.map serializeInt32Array = some value) : ¬ LacksBrackets value := by
  obtain ⟨items, -, rfl⟩ := Option.map_eq_some_iff.mp hvalue
  exact not_lacksBrackets_serializeInt32Array items

/-- What is read from the section of a node. -/
structure ReadsBack (node : GodotNode) (parentPath : Option String)
    (entry : GodotNode × Option String) : Prop where
  id : entry.1.id = ⟨node.id.id, none⟩
  name : entry.1.name = node.name
  parentPath : entry.2 = parentPath
  typed : node.typeOrInstance ≠ none → entry.1.typeOrInstance ≠ none

/-- **A node section is read as it was written.** -/
theorem HeadsNode.readsBack {input : Section} {node : GodotNode}
    {entry : GodotNode × Option String} (hheads : HeadsNode input node parentPath)
    (hreads : SectionState.ReadsNode input entry) : ReadsBack node parentPath entry := by
  constructor
  · rw [hreads.id, SectionState.nodeIdOf, hheads.uniqueId]
    simp
  · have hname := hreads.name
    rw [Section.required_of_quoted hheads.name] at hname
    exact (Run.done.inj hname).symm
  · have hparent := hreads.parentPath
    rw [Section.optional, hheads.parent] at hparent
    cases parentPath with
    | none => exact (Run.done.inj hparent).symm
    | some path =>
        simp only [Option.map_some, unquote_quoted] at hparent
        exact (Run.done.inj hparent).symm
  · intro htyped
    have htype := hreads.typeOrInstance
    rw [SectionState.typeOrInstanceOf, hheads.typeValue, hheads.instanceValue, typeAttributes,
      instanceAttributes] at htype
    cases hnode : node.typeOrInstance with
    | none => exact absurd hnode htyped
    | some typeOrInstance =>
        cases typeOrInstance with
        | ofType name =>
            simp only [hnode, List.reverse_singleton, List.lookup_cons_self, unquote_quoted]
              at htype
            have hsome : Run.done (some (TypeOrInstance.ofType name)) =
                Run.done entry.1.typeOrInstance := htype
            rw [← Run.done.inj hsome]
            exact nofun
        | ofInstance id =>
            simp only [hnode, List.reverse_nil, List.lookup_nil, List.reverse_singleton,
              List.lookup_cons_self, map_eq_pure_bind] at htype
            obtain ⟨text, -, hsome⟩ := Run.bind_eq_done_iff.mp htype
            rw [← Run.done.inj hsome]
            exact nofun

theorem VisitsNode.accepted (hvisit : scene.VisitsNode root visit parentPath)
    (hlexical : (visit.toSection orders).Lexical) : (visit.toSection orders).Accepted := by
  have hheads : HeadsNode (visit.toSection orders) visit.node parentPath := hvisit.headsNode
  have hid : (visit.toSection orders).identifier = "node" := rfl
  apply hlexical.accepted
  · simp [Section.readings, hid]
  · intro key hkey
    obtain rfl : key = "name" := by simpa [Section.readings, hid] using hkey
    rw [hheads.name]
    exact nofun
  · intro key value hkey hvalue
    have hkeys : key = "parent_id_path" ∨ key = "owner_uid_path" := by
      simpa [Section.readings, hid] using hkey
    rcases hkeys with rfl | rfl
    · rw [hheads.parentIdPath] at hvalue
      obtain ⟨_, -, hmap⟩ := Option.bind_eq_some_iff.mp hvalue
      exact not_lacksBrackets_of_map hmap
    · rw [hheads.ownerUidPath] at hvalue
      obtain ⟨_, -, hmap⟩ := Option.bind_eq_some_iff.mp hvalue
      exact not_lacksBrackets_of_map hmap

/-! ## The other sections -/

/-- What is found in the heading of a connection section. -/
structure HeadsConnection (input : Section) (connection : GodotConnection)
    (fromPath toPath : String) : Prop where
  signal : input.heading "signal" = some (quoted connection.signal)
  fromPath : input.heading "from" = some (quoted fromPath)
  toPath : input.heading "to" = some (quoted toPath)
  method : input.heading "method" = some (quoted connection.method)
  fromUidPath : input.heading "from_uid_path" = connection.fromUidPath.map serializeInt32Array
  toUidPath : input.heading "to_uid_path" = connection.toUidPath.map serializeInt32Array

theorem headsConnection (connection : GodotConnection) (fromPath toPath : String) :
    HeadsConnection (connectionSection (connectionAttributesWith connection fromPath toPath))
      connection fromPath toPath := by
  constructor <;>
    simp [Section.heading, connectionSection, connectionAttributesWith, List.lookup_append,
      List.lookup_cons, lookup_optionalAttribute]

theorem accepted_connectionSection {connection : GodotConnection} {fromPath toPath : String}
    (hlexical : (connectionSection
      (connectionAttributesWith connection fromPath toPath)).Lexical) :
    (connectionSection (connectionAttributesWith connection fromPath toPath)).Accepted := by
  have hheads := headsConnection connection fromPath toPath
  have hid : (connectionSection
      (connectionAttributesWith connection fromPath toPath)).identifier = "connection" := rfl
  apply hlexical.accepted
  · simp [Section.readings, hid]
  · intro key hkey
    have hkeys : key = "signal" ∨ key = "from" ∨ key = "to" ∨ key = "method" := by
      simpa [Section.readings, hid] using hkey
    rcases hkeys with rfl | rfl | rfl | rfl
    · simp [hheads.signal]
    · simp [hheads.fromPath]
    · simp [hheads.toPath]
    · simp [hheads.method]
  · intro key value hkey hvalue
    have hkeys : key = "from_uid_path" ∨ key = "to_uid_path" := by
      simpa [Section.readings, hid] using hkey
    rcases hkeys with rfl | rfl
    · exact not_lacksBrackets_of_map (hheads.fromUidPath.symm.trans hvalue)
    · exact not_lacksBrackets_of_map (hheads.toUidPath.symm.trans hvalue)

theorem accepted_editableSection {path : String} (hlexical : (editableSection path).Lexical) :
    (editableSection path).Accepted := by
  apply hlexical.accepted <;>
    simp [Section.readings, editableSection, Section.heading, List.lookup_cons]

theorem accepted_extResourceSection {entry : Entry String ExternalResourceNode}
    (hlexical : (extResourceSection entry).Lexical) : (extResourceSection entry).Accepted := by
  apply hlexical.accepted <;>
    simp [Section.readings, extResourceSection, Section.heading, extResourceAttributes,
      List.lookup_append, List.lookup_cons, lookup_optionalAttribute]

theorem accepted_subResourceSection {entry : Entry String SubResourceNode}
    (hlexical : (subResourceSection orders entry).Lexical) :
    (subResourceSection orders entry).Accepted := by
  apply hlexical.accepted <;>
    simp [Section.readings, subResourceSection, Section.heading, subResourceAttributes,
      List.lookup_cons]

theorem accepted_headerSection (hlexical : scene.headerSection.Lexical)
    (hlower : -2 ^ 63 ≤ scene.format) (hupper : scene.format < 2 ^ 63) :
    scene.headerSection.Accepted := by
  have hformat : scene.headerSection.heading "format" = some (displayInteger scene.format) := by
    simp [Section.heading, headerSection, headerAttributes, List.lookup_cons]
  have huid : scene.headerSection.heading "uid" = some (quoted scene.uid) := by
    simp [Section.heading, headerSection, headerAttributes]
  apply hlexical.accepted
  · intro _
    rw [Section.optionalInteger, hformat, Option.bind_some, parseI64_displayInteger hlower hupper]
    exact Option.some_ne_none _
  · intro key hkey
    by_cases hpacked : scene.resourceType = "PackedScene"
    · obtain rfl : key = "uid" := by
        simpa [Section.readings, headerSection, headerIdentifier, hpacked] using hkey
      rw [huid]
      exact Option.some_ne_none _
    · have htype : scene.headerSection.heading "type" = some (quoted scene.resourceType) := by
        by_cases hsteps : scene.loadSteps = 0 <;>
          simp [Section.heading, headerSection, headerAttributes, hpacked, hsteps,
            List.lookup_append, List.lookup_cons, lookup_optionalAttribute]
      have hkeys : key = "uid" ∨ key = "type" := by
        simpa [Section.readings, headerSection, headerIdentifier, hpacked] using hkey
      rcases hkeys with rfl | rfl
      · rw [huid]
        exact Option.some_ne_none _
      · rw [htype]
        exact Option.some_ne_none _
  · intro key value hkey
    by_cases hpacked : scene.resourceType = "PackedScene" <;>
      simp [Section.readings, headerSection, headerIdentifier, hpacked] at hkey

end GodotScene

/-! ## What the grammar can return -/

/-- The texts of a node that are written as they stand. -/
def GodotNode.rawTexts (node : GodotNode) : List String :=
  node.nodePaths.toList ++ node.groups.toList ++ node.instancePlaceholder.toList ++
    match node.typeOrInstance with
    | some (.ofInstance id) => [id]
    | _ => []

theorem quoted_ne_mark (value : String) : quoted value ≠ "\"" := by
  intro hmark
  have hlength := congrArg (fun text => text.toList.length) hmark
  simp [quoted] at hlength

theorem displayInteger_ne_mark (value : ℤ) : displayInteger value ≠ "\"" := by
  intro hmark
  have hparse := parseInteger_displayInteger value
  rw [hmark] at hparse
  nomatch hparse

theorem serializeInt32Array_ne_mark (array : List Int32) : serializeInt32Array array ≠ "\"" := by
  intro hmark
  have hbrackets := not_lacksBrackets_serializeInt32Array array
  rw [hmark] at hbrackets
  exact hbrackets rfl

theorem optionalAttribute_ne_mark {key : String} {value : Option String}
    (hvalue : "\"" ∉ value.toList) : ∀ item ∈ optionalAttribute key value, item.2 ≠ "\"" := by
  intro item hitem hmark
  obtain ⟨text, rfl, rfl⟩ := mem_optionalAttribute.mp hitem
  exact hvalue (List.mem_singleton.mpr hmark.symm)

theorem optionalAttribute_map_ne_mark {α : Type} {key : String} {value : Option α}
    {text : α → String} (htext : ∀ value, text value ≠ "\"") :
    ∀ item ∈ optionalAttribute key (value.map text), item.2 ≠ "\"" := by
  apply optionalAttribute_ne_mark
  cases value with
  | none => exact List.not_mem_nil
  | some value => simpa using (htext value).symm

/-- **A node section can be returned unless one of these texts is a lone quotation mark.** -/
theorem GodotScene.VisitsNode.lexical {scene : GodotScene} {root : NodeId}
    {orders : IterationOrders} {visit : Visit} {parentPath : Option String}
    (hvisit : scene.VisitsNode root visit parentPath) (hraw : "\"" ∉ visit.node.rawTexts) :
    (visit.toSection orders).Lexical := by
  have hattributes : (visit.toSection orders).attributes = GodotScene.nodeAttributesWith visit.node
      (GodotScene.parentPathAttributes visit.node parentPath) := hvisit.attributes
  simp only [GodotNode.rawTexts, List.mem_append, not_or] at hraw
  obtain ⟨⟨⟨hnodePaths, hgroups⟩, hplaceholder⟩, hinstance⟩ := hraw
  have htype : ∀ item ∈ GodotScene.typeAttributes visit.node, item.2 ≠ "\"" := by
    unfold GodotScene.typeAttributes
    split
    · simpa using quoted_ne_mark _
    · simp
  have hparent : ∀ item ∈ GodotScene.parentPathAttributes visit.node parentPath,
      item.2 ≠ "\"" := by
    cases parentPath with
    | none => simp [GodotScene.parentPathAttributes]
    | some path =>
        exact List.forall_mem_cons.mpr ⟨quoted_ne_mark path,
          optionalAttribute_map_ne_mark serializeInt32Array_ne_mark⟩
  have howner : ∀ item ∈ GodotScene.ownerAttributes visit.node, item.2 ≠ "\"" := by
    unfold GodotScene.ownerAttributes
    split
    · simp
    · exact List.forall_mem_cons.mpr ⟨quoted_ne_mark _,
        optionalAttribute_map_ne_mark serializeInt32Array_ne_mark⟩
  have hinstances : ∀ item ∈ GodotScene.instanceAttributes visit.node, item.2 ≠ "\"" := by
    unfold GodotScene.instanceAttributes
    split
    · next id hid =>
      rw [hid] at hinstance
      simpa [eq_comm] using hinstance
    · simp
  have hindex : ∀ item ∈ optionalAttribute "index" (visit.node.index.map fun index =>
      quoted (displayInteger index)), item.2 ≠ "\"" :=
    optionalAttribute_map_ne_mark fun _ => quoted_ne_mark _
  rw [Section.Lexical, hattributes]
  simp only [GodotScene.nodeAttributesWith, List.forall_mem_append, List.forall_mem_cons]
  exact ⟨⟨⟨⟨⟨⟨⟨⟨⟨quoted_ne_mark _, htype⟩, hparent⟩, howner⟩, hindex⟩,
    displayInteger_ne_mark _, by simp⟩, optionalAttribute_ne_mark hnodePaths⟩,
    optionalAttribute_ne_mark hgroups⟩, optionalAttribute_ne_mark hplaceholder⟩, hinstances⟩

/-- The same of a connection and the values bound to it. -/
theorem lexical_connectionSection {connection : GodotConnection} {fromPath toPath : String}
    (hbinds : "\"" ∉ connection.binds.toList) : (connectionSection
      (GodotScene.connectionAttributesWith connection fromPath toPath)).Lexical := by
  have hflags : ∀ item ∈ optionalAttribute "flags" (connection.flags.map displayInteger),
      item.2 ≠ "\"" := optionalAttribute_map_ne_mark displayInteger_ne_mark
  have hunbinds : ∀ item ∈ optionalAttribute "unbinds" (connection.unbinds.map displayInteger),
      item.2 ≠ "\"" := optionalAttribute_map_ne_mark displayInteger_ne_mark
  rw [Section.Lexical, connectionSection]
  simp only [GodotScene.connectionAttributesWith, List.forall_mem_append, List.forall_mem_cons]
  exact ⟨⟨⟨⟨⟨⟨quoted_ne_mark _, quoted_ne_mark _, quoted_ne_mark _, quoted_ne_mark _, by simp⟩,
    hflags⟩, optionalAttribute_map_ne_mark serializeInt32Array_ne_mark⟩,
    optionalAttribute_map_ne_mark serializeInt32Array_ne_mark⟩, hunbinds⟩,
    optionalAttribute_ne_mark hbinds⟩

/-- The sections of resources, the header and the editables hold quoted texts and numbers. -/
theorem lexical_otherSections (scene : GodotScene) {orders : IterationOrders} {input : Section}
    (hinput : input ∈ scene.headerSection :: GodotScene.extResourceSections orders ++
      GodotScene.subResourceSections orders ++ scene.editableInstances.map editableSection) :
    input.Lexical := by
  simp only [GodotScene.extResourceSections, GodotScene.subResourceSections, List.cons_append,
    List.mem_cons, List.mem_append, List.mem_map] at hinput
  rcases hinput with rfl | (⟨entry, -, rfl⟩ | ⟨entry, -, rfl⟩) | ⟨path, -, rfl⟩
  · have htype : ∀ item ∈ (if scene.resourceType ≠ "PackedScene" then
        ("type", quoted scene.resourceType) ::
          optionalAttribute "script_class" (scene.scriptClass.map quoted) else []),
        item.2 ≠ "\"" := by
      split
      · exact List.forall_mem_cons.mpr ⟨quoted_ne_mark _,
          optionalAttribute_map_ne_mark quoted_ne_mark⟩
      · simp
    have hsteps : ∀ item ∈ (if scene.loadSteps ≠ 0 then
        [("load_steps", displayInteger scene.loadSteps)] else []), item.2 ≠ "\"" := by
      split
      · simpa using displayInteger_ne_mark _
      · simp
    rw [Section.Lexical, GodotScene.headerSection]
    simp only [GodotScene.headerAttributes, List.forall_mem_append, List.forall_mem_cons]
    exact ⟨⟨htype, hsteps⟩, displayInteger_ne_mark _, quoted_ne_mark _, by simp⟩
  · have huid : ∀ item ∈ optionalAttribute "uid" (entry.2.uid.map quoted), item.2 ≠ "\"" :=
      optionalAttribute_map_ne_mark quoted_ne_mark
    rw [Section.Lexical, extResourceSection]
    simp only [GodotScene.extResourceAttributes, Bool.false_eq_true, if_false, List.cons_append,
      List.forall_mem_append, List.forall_mem_cons]
    exact ⟨quoted_ne_mark _, huid, quoted_ne_mark _, quoted_ne_mark _, by simp⟩
  · rw [Section.Lexical, subResourceSection]
    simp only [GodotScene.subResourceAttributes, List.forall_mem_cons]
    exact ⟨quoted_ne_mark _, quoted_ne_mark _, by simp⟩
  · rw [Section.Lexical, editableSection]
    simp only [List.forall_mem_cons]
    exact ⟨quoted_ne_mark _, by simp⟩

end Backstitch
