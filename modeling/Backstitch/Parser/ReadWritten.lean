/-
# Reading what was written

A section that `serialize` writes is read by `parse_scene` as what it was written from, with the
properties and resources numbered in the order in which they stand.
-/

import Backstitch.Library.Numbering
import Backstitch.Parser.WrittenHeadings

namespace Backstitch

/-! ## Arrays of integers -/

/-- An integer is written with digits and a sign. -/
theorem isDigit_or_dash_of_mem_displayI32 {value : Int32} {char : Char}
    (hmem : char ∈ (displayI32 value).toList) : char.isDigit = true ∨ char = '-' := by
  unfold displayI32 at hmem
  cases hvalue : value.toInt with
  | ofNat number =>
      rw [hvalue, toList_displayInteger_ofNat] at hmem
      exact .inl (Nat.isDigit_of_mem_toDigits (by decide) (by decide) hmem)
  | negSucc number =>
      rw [hvalue, toList_displayInteger_negSucc] at hmem
      rcases List.mem_cons.mp hmem with rfl | hmem
      · exact .inr rfl
      · exact .inl (Nat.isDigit_of_mem_toDigits (by decide) (by decide) hmem)

theorem isWhiteSpace_of_mem_displayI32 {value : Int32} {char : Char}
    (hmem : char ∈ (displayI32 value).toList) : isWhiteSpace char = false := by
  rcases isDigit_or_dash_of_mem_displayI32 hmem with hdigit | rfl
  · have hbounds : 48 ≤ char.toNat ∧ char.toNat ≤ 57 := by
      simpa [Char.isDigit, UInt32.le_iff_toNat_le] using hdigit
    simp only [isWhiteSpace, Bool.or_eq_false_iff, Bool.and_eq_false_imp, decide_eq_true_eq,
      decide_eq_false_iff_not, beq_eq_false_iff_ne]
    omega
  · decide

theorem comma_not_mem_displayI32 (value : Int32) : ',' ∉ (displayI32 value).toList := by
  intro hmem
  rcases isDigit_or_dash_of_mem_displayI32 hmem with hdigit | hdash
  · exact absurd hdigit (by decide)
  · exact absurd hdash (by decide)

theorem displayI32_ne_nil (value : Int32) : (displayI32 value).toList ≠ [] := by
  intro hempty
  have hparse := parseI32_displayI32 value
  rw [String.toList_eq_nil_iff.mp hempty] at hparse
  cases hparse

theorem intercalate_append_cons (separator before first : String) (rest : List String) :
    separator.intercalate ((before ++ first) :: rest) =
      before ++ separator.intercalate (first :: rest) := by
  cases rest with
  | nil => simp
  | cons second rest => simp [String.intercalate_cons_cons, String.append_assoc]

/-- The blanks behind the commas belong to the parts. -/
theorem intercalate_comma_blank (first : String) (rest : List String) :
    ", ".intercalate (first :: rest) = ",".intercalate (first :: rest.map (" " ++ ·)) := by
  induction rest generalizing first with
  | nil => rfl
  | cons second rest ih =>
      have hmark : ", " = "," ++ " " := rfl
      rw [String.intercalate_cons_cons, ih, List.map_cons, String.intercalate_cons_cons,
        intercalate_append_cons, hmark]
      simp only [String.append_assoc]

/-- A joined text begins with the first part and ends with the last one. -/
theorem exists_intercalate_eq (separator first : String) (rest : List String) :
    (∃ behind, separator.intercalate (first :: rest) = first ++ behind) ∧
      ∃ before, ∃ last ∈ first :: rest,
        separator.intercalate (first :: rest) = before ++ last := by
  induction rest generalizing first with
  | nil => exact ⟨⟨"", by simp⟩, "", first, List.mem_cons_self, by simp⟩
  | cons second rest ih =>
      obtain ⟨-, before, last, hlast, heq⟩ := ih second
      rw [String.intercalate_cons_cons]
      refine ⟨⟨separator ++ separator.intercalate (second :: rest), by rw [String.append_assoc]⟩,
        first ++ separator ++ before, last, List.mem_cons_of_mem _ hlast, ?_⟩
      rw [heq]
      exact String.append_assoc.symm

theorem trimText_displayI32 (value : Int32) : trimText (displayI32 value) = displayI32 value := by
  apply trimText_eq_self
  · exact fun char hchar => isWhiteSpace_of_mem_displayI32 (List.mem_of_head? hchar)
  · exact fun char hchar => isWhiteSpace_of_mem_displayI32 (List.mem_of_getLast? hchar)

theorem trimText_blank (text : String) : trimText (" " ++ text) = trimText text := by
  have hmark : " ".toList = [' '] := rfl
  have hblank : isWhiteSpace ' ' = true := by decide
  unfold trimText
  rw [String.toList_append, hmark, List.singleton_append, List.dropWhile_cons_of_pos hblank]

/-- **An array that is not empty reads as it was written.** -/
theorem parseInt32Array_serializeInt32Array {array : List Int32} (hne : array ≠ []) :
    parseInt32Array (serializeInt32Array array) = .done array := by
  obtain ⟨first, rest, rfl⟩ := List.exists_cons_of_ne_nil hne
  obtain ⟨inner, hinner⟩ : ∃ inner,
      inner = ", ".intercalate (displayI32 first :: rest.map displayI32) := ⟨_, rfl⟩
  have htext : serializeInt32Array (first :: rest) = "PackedInt32Array(" ++ (inner ++ ")") := by
    rw [hinner]
    exact String.append_assoc
  have hstrip : (stripPrefix "PackedInt32Array(" (serializeInt32Array (first :: rest))).bind
      (stripSuffix ")") = some inner := by
    rw [htext, stripPrefix_append, Option.bind_some, stripSuffix_append]
  obtain ⟨⟨behind, hbehind⟩, before, last, hlast, hbefore⟩ :=
    exists_intercalate_eq ", " (displayI32 first) (rest.map displayI32)
  have htrim : trimText inner = inner := by
    apply trimText_eq_self
    · intro char hchar
      have hhead : inner.toList.head? = (displayI32 first).toList.head? := by
        rw [hinner, hbehind, String.toList_append,
          List.head?_append_of_ne_nil _ (displayI32_ne_nil first)]
      exact isWhiteSpace_of_mem_displayI32 (List.mem_of_head? (hhead ▸ hchar))
    · intro char hchar
      obtain ⟨value, -, rfl⟩ := List.mem_map.mp
        (show last ∈ (first :: rest).map displayI32 from hlast)
      have hend : inner.toList.getLast? = (displayI32 value).toList.getLast? := by
        rw [hinner, hbefore, String.toList_append,
          List.getLast?_append_of_ne_nil _ (displayI32_ne_nil value)]
      exact isWhiteSpace_of_mem_displayI32 (List.mem_of_getLast? (hend ▸ hchar))
  have hsplit : splitAtChar ',' inner =
      displayI32 first :: (rest.map displayI32).map (" " ++ ·) := by
    rw [hinner, intercalate_comma_blank]
    refine splitAtChar_intercalate ?_ (List.cons_ne_nil _ _)
    intro part hpart
    rcases List.mem_cons.mp hpart with rfl | hpart
    · exact comma_not_mem_displayI32 first
    · simp only [List.map_map, List.mem_map, Function.comp_apply] at hpart
      obtain ⟨value, -, rfl⟩ := hpart
      simpa using comma_not_mem_displayI32 value
  unfold parseInt32Array
  rw [hstrip]
  dsimp only
  rw [htrim, hsplit, List.map_cons, trimText_displayI32, parseI32_displayI32, Option.getD_some,
    List.map_map, List.map_map]
  have hrest : ∀ value ∈ rest, (((fun part => (parseI32 (trimText part)).getD 0) ∘
      (" " ++ ·)) ∘ displayI32) value = value := by
    intro value _
    simp only [Function.comp_apply]
    rw [trimText_blank, trimText_displayI32, parseI32_displayI32, Option.getD_some]
  rw [List.map_congr_left hrest, List.map_id']

/-! ## Values of attributes -/

/-- A text that is read as it stands: not a lone quotation mark, and not in quotation marks. -/
def StandsAsIs (text : String) : Prop := unquote text = .done text

/-- An integer that an `i64` can hold. -/
def FitsI64 (value : ℤ) : Prop := -2 ^ 63 ≤ value ∧ value < 2 ^ 63

namespace Section

variable {input : Section} {key : String}

theorem optional_of_quoted {value : Option String}
    (hvalue : input.heading key = value.map quoted) : input.optional key = .done value := by
  rw [optional, hvalue]
  cases value with
  | none => rfl
  | some value =>
      show some <$> unquote (quoted value) = _
      rw [unquote_quoted]
      rfl

theorem optional_of_standsAsIs {value : Option String} (hvalue : input.heading key = value)
    (hreads : ∀ text, value = some text → StandsAsIs text) : input.optional key = .done value := by
  rw [optional, hvalue]
  cases value with
  | none => rfl
  | some value =>
      show some <$> unquote value = _
      rw [show unquote value = .done value from hreads value rfl]
      rfl

theorem optionalArray_of_serialized {value : Option (List Int32)}
    (hvalue : input.heading key = value.map serializeInt32Array)
    (hnonempty : ∀ array, value = some array → array ≠ []) :
    input.optionalArray key = .done value := by
  rw [optionalArray, hvalue]
  cases value with
  | none => rfl
  | some array =>
      show some <$> parseInt32Array (serializeInt32Array array) = _
      rw [parseInt32Array_serializeInt32Array (hnonempty array rfl)]
      rfl

theorem optionalInteger_of_display {value : Option ℤ}
    (hvalue : input.heading key = value.map displayInteger)
    (hfits : ∀ number, value = some number → FitsI64 number) :
    input.optionalInteger key = value := by
  rw [optionalInteger, hvalue]
  cases value with
  | none => rfl
  | some number =>
      obtain ⟨hlower, hupper⟩ := hfits number rfl
      exact parseI64_displayInteger hlower hupper

end Section

/-! ## Numbered properties -/

/-- The properties of a map, numbered in the order in which they are written. -/
def numberedProperties (order : List (Entry String OrderedProperty)) : Properties :=
  HashMap.numbered (fun _ property position => { property with order := position })
    (sortByKey (fun property => property.2.order) order)

/-- What is read of the properties that were written. -/
theorem orderedProperties_eq {input : Section} {order : List (Entry String OrderedProperty)}
    (hproperties : input.properties = writtenProperties order) :
    input.orderedProperties = numberedProperties order := by
  rw [Section.orderedProperties, hproperties, writtenProperties, numberedProperties,
    HashMap.numbered, List.zipIdx_map, List.map_map]
  rfl

/-! ## Sections -/

/-- The values of a node are read as they were written. -/
structure GodotNode.Spelled (node : GodotNode) : Prop where
  ofInstance : ∀ id, node.typeOrInstance = some (.ofInstance id) → StandsAsIs id
  instancePlaceholder : ∀ text, node.instancePlaceholder = some text → StandsAsIs text
  nodePaths : ∀ text, node.nodePaths = some text → StandsAsIs text
  parentIdPath : ∀ path, node.parentIdPath = some path → node.parentId ≠ none ∧ path ≠ []
  ownerUidPath : ∀ path, node.ownerUidPath = some path → node.owner ≠ none ∧ path ≠ []
  index : ∀ index, node.index = some index → FitsI64 index

/-- Those of a connection. -/
structure GodotConnection.Spelled (connection : GodotConnection) : Prop where
  flags : ∀ flags, connection.flags = some flags → FitsI64 flags
  unbinds : ∀ unbinds, connection.unbinds = some unbinds → FitsI64 unbinds
  fromUidPath : ∀ path, connection.fromUidPath = some path → path ≠ []
  toUidPath : ∀ path, connection.toUidPath = some path → path ≠ []
  binds : ∀ text, connection.binds = some text → StandsAsIs text

namespace GodotNode

/-- A node as its section tells it, before it is linked. -/
def unlinked (node : GodotNode) (parentPath : Option String)
    (order : List (Entry String OrderedProperty)) : GodotNode :=
  { node with
    parentId := none
    parentPathFallback := parentPath
    properties := numberedProperties order
    childNodeIds := [] }

end GodotNode

namespace SectionState

variable {state : SectionState}

section Nodes

variable {scene : GodotScene} {root : NodeId} {orders : IterationOrders} {visit : Visit}
  {parentPath : Option String}

/-- The attributes of a node that its section names as they are. -/
theorem headings_toSection (orders : IterationOrders)
    (hvisit : scene.VisitsNode root visit parentPath) :
    (visit.toSection orders).heading "owner" = visit.node.owner.map quoted ∧
      (visit.toSection orders).heading "index" =
        visit.node.index.map (fun index => quoted (displayInteger index)) ∧
      (visit.toSection orders).heading "node_paths" = visit.node.nodePaths ∧
      (visit.toSection orders).heading "groups" = visit.node.groups ∧
      (visit.toSection orders).heading "instance_placeholder" =
        visit.node.instancePlaceholder := by
  have hattributes : (visit.toSection orders).attributes = GodotScene.nodeAttributesWith visit.node
      (GodotScene.parentPathAttributes visit.node parentPath) := hvisit.attributes
  have howner : (GodotScene.ownerAttributes visit.node).reverse.lookup "owner" =
      visit.node.owner.map quoted := by
    unfold GodotScene.ownerAttributes
    cases visit.node.owner <;> simp [List.lookup_append, lookup_optionalAttribute]
  refine ⟨?_, ?_, ?_, ?_, ?_⟩ <;>
    simp [Section.heading, hattributes, GodotScene.nodeAttributesWith, List.lookup_append,
      List.lookup_cons, lookup_optionalAttribute, GodotScene.lookup_typeAttributes,
      GodotScene.lookup_instanceAttributes, GodotScene.lookup_ownerAttributes,
      GodotScene.lookup_parentPathAttributes, howner]

/-- The type or the instance comes back. -/
theorem typeOrInstanceOf_toSection (hvisit : scene.VisitsNode root visit parentPath)
    (hspelled : visit.node.Spelled) :
    typeOrInstanceOf (visit.toSection orders) = .done visit.node.typeOrInstance := by
  have hheads : GodotScene.HeadsNode (visit.toSection orders) visit.node parentPath :=
    hvisit.headsNode
  rw [typeOrInstanceOf, hheads.typeValue, hheads.instanceValue, GodotScene.typeAttributes,
    GodotScene.instanceAttributes]
  cases htype : visit.node.typeOrInstance with
  | none => rfl
  | some typeOrInstance =>
      cases typeOrInstance with
      | ofType name =>
          simp only [List.reverse_singleton, List.lookup_cons_self, unquote_quoted]
          rfl
      | ofInstance id =>
          have hid : unquote id = .done id := hspelled.ofInstance id htype
          simp only [List.reverse_nil, List.lookup_nil, List.reverse_singleton,
            List.lookup_cons_self, hid]
          rfl

theorem indexOf_toSection (hvisit : scene.VisitsNode root visit parentPath)
    (hspelled : visit.node.Spelled) :
    indexOf (visit.toSection orders) = .done visit.node.index := by
  obtain ⟨-, hindex, -⟩ := headings_toSection orders hvisit
  rw [indexOf, hindex]
  cases hsome : visit.node.index with
  | none => rfl
  | some index =>
      obtain ⟨hlower, hupper⟩ := hspelled.index index hsome
      show parseI64 <$> unquote (quoted (displayInteger index)) = _
      rw [unquote_quoted]
      show Run.done (parseI64 (displayInteger index)) = _
      rw [parseI64_displayInteger hlower hupper]

/-- **The section of a node is read as the node.** -/
theorem readSection_toSection (hvisit : scene.VisitsNode root visit parentPath)
    (hplain : GodotScene.PlainNode visit.node) (hspelled : visit.node.Spelled)
    (hnew : visit.node.id ∉ state.parsedNodeIds) :
    state.readSection (visit.toSection orders) = .done { state with
      parsedNodeIds := insert visit.node.id state.parsedNodeIds
      nodeArr := state.nodeArr ++
        [(visit.node.unlinked parentPath (orders.nodeProperties visit.key), parentPath)] } := by
  have hheads : GodotScene.HeadsNode (visit.toSection orders) visit.node parentPath :=
    hvisit.headsNode
  obtain ⟨howner, -, hnodePaths, hgroups, hplaceholder⟩ :=
    headings_toSection orders hvisit
  have hid : nodeIdOf (visit.toSection orders) = visit.node.id := by
    rw [nodeIdOf, hheads.uniqueId]
    show (⟨(parseI32 (displayI32 visit.node.id.id)).getD 0, none⟩ : NodeId) = _
    rw [parseI32_displayI32, Option.getD_some, ← hplain.unqualified]
  have hparentIdPath : (visit.toSection orders).optionalArray "parent_id_path" =
      .done visit.node.parentIdPath := by
    refine Section.optionalArray_of_serialized ?_ fun path hpath =>
      (hspelled.parentIdPath path hpath).2
    rw [hheads.parentIdPath]
    cases hvisit.namesParent with
    | some => rfl
    | none hnone =>
        cases hpath : visit.node.parentIdPath with
        | none => rfl
        | some path => exact absurd hnone (hspelled.parentIdPath path hpath).1
  have hownerUidPath : (visit.toSection orders).optionalArray "owner_uid_path" =
      .done visit.node.ownerUidPath := by
    refine Section.optionalArray_of_serialized ?_ fun path hpath =>
      (hspelled.ownerUidPath path hpath).2
    rw [hheads.ownerUidPath]
    cases howned : visit.node.owner with
    | some owner => rfl
    | none =>
        cases hpath : visit.node.ownerUidPath with
        | none => rfl
        | some path => exact absurd howned (hspelled.ownerUidPath path hpath).1
  have hkind : (visit.toSection orders).identifier = "node" := rfl
  have hproperties : (visit.toSection orders).orderedProperties =
      numberedProperties (orders.nodeProperties visit.key) := orderedProperties_eq rfl
  simp only [readSection, hkind, readNode, hid, hproperties, Section.required_of_quoted hheads.name,
    Section.optional_of_standsAsIs hplaceholder hspelled.instancePlaceholder, hparentIdPath,
    hownerUidPath, typeOrInstanceOf_toSection hvisit hspelled,
    Section.optional_of_standsAsIs hnodePaths hspelled.nodePaths,
    Section.optional_of_quoted hheads.parent, Section.optional_of_quoted howner,
    indexOf_toSection hvisit hspelled, hgroups, Run.done_bind, hnew, false_and, if_false]
  rfl

end Nodes

section Others

variable {scene : GodotScene} {orders : IterationOrders}

/-- The values of a header, and what it tells of the kind of scene. -/
structure SpelledHeader (scene : GodotScene) : Prop where
  loadSteps : FitsI64 scene.loadSteps
  format : FitsI64 scene.format
  scriptClass : scene.resourceType = "PackedScene" → scene.scriptClass = none

/-- **The header is read as it was written.** -/
theorem readSection_headerSection (hspelled : SpelledHeader scene) :
    state.readSection scene.headerSection = .done { state with
      sceneMetadata := some ⟨scene.loadSteps, scene.format, scene.uid, scene.scriptClass,
        scene.resourceType⟩ } := by
  have hformat : scene.headerSection.optionalInteger "format" = some scene.format := by
    refine Section.optionalInteger_of_display ?_ fun number hnumber =>
      Option.some.inj hnumber ▸ hspelled.format
    simp [Section.heading, GodotScene.headerSection, GodotScene.headerAttributes, List.lookup_cons]
  have hloadSteps : (scene.headerSection.optionalInteger "load_steps").getD 0 =
      scene.loadSteps := by
    by_cases hzero : scene.loadSteps = 0
    · have hnone : scene.headerSection.heading "load_steps" = none := by
        by_cases hpacked : scene.resourceType = "PackedScene" <;>
          simp [Section.heading, GodotScene.headerSection, GodotScene.headerAttributes, hzero,
            hpacked, List.lookup_append, List.lookup_cons, lookup_optionalAttribute]
      rw [Section.optionalInteger, hnone, hzero]
      rfl
    · have hsome : scene.headerSection.heading "load_steps" =
          (some scene.loadSteps).map displayInteger := by
        simp [Section.heading, GodotScene.headerSection, GodotScene.headerAttributes, hzero,
          List.lookup_cons]
      rw [Section.optionalInteger_of_display hsome fun number hnumber =>
        Option.some.inj hnumber ▸ hspelled.loadSteps, Option.getD_some]
  have huid : scene.headerSection.heading "uid" = some (quoted scene.uid) := by
    simp [Section.heading, GodotScene.headerSection, GodotScene.headerAttributes]
  by_cases hpacked : scene.resourceType = "PackedScene"
  · have hkind : scene.headerSection.identifier = "gd_scene" := by
      simp [GodotScene.headerSection, GodotScene.headerIdentifier, hpacked]
    simp only [readSection, hkind, readSceneHeader, Section.format, hformat, hloadSteps,
      Section.required_of_quoted huid, Run.done_bind, hspelled.scriptClass hpacked, hpacked]
    rfl
  · have hkind : scene.headerSection.identifier = "gd_resource" := by
      simp [GodotScene.headerSection, GodotScene.headerIdentifier, hpacked]
    have htype : scene.headerSection.heading "type" = some (quoted scene.resourceType) := by
      by_cases hzero : scene.loadSteps = 0 <;>
        simp [Section.heading, GodotScene.headerSection, GodotScene.headerAttributes, hpacked,
          hzero, List.lookup_append, List.lookup_cons, lookup_optionalAttribute]
    have hscript : scene.headerSection.heading "script_class" =
        scene.scriptClass.map quoted := by
      by_cases hzero : scene.loadSteps = 0 <;>
        simp [Section.heading, GodotScene.headerSection, GodotScene.headerAttributes, hpacked,
          hzero, List.lookup_append, List.lookup_cons, lookup_optionalAttribute]
    simp only [readSection, hkind, readResourceHeader, Section.format, hformat, hloadSteps,
      Section.optional_of_quoted hscript, Section.required_of_quoted huid,
      Section.required_of_quoted htype, Run.done_bind]
    rfl

/-- An external resource is numbered with its position. -/
theorem readSection_extResourceSection (entry : Entry String ExternalResourceNode) :
    state.readSection (extResourceSection entry) = .done { state with
      extResources := state.extResources.insert entry.2.id
        { entry.2 with idx := state.extResourceIdx }
      extResourceIdx := state.extResourceIdx + 1 } := by
  have hheading : (extResourceSection entry).heading "type" = some (quoted entry.2.resourceType) ∧
      (extResourceSection entry).heading "uid" = entry.2.uid.map quoted ∧
      (extResourceSection entry).heading "path" = some (quoted entry.2.path) ∧
      (extResourceSection entry).heading "id" = some (quoted entry.2.id) := by
    refine ⟨?_, ?_, ?_, ?_⟩ <;>
      simp [Section.heading, extResourceSection, GodotScene.extResourceAttributes,
        List.lookup_append, List.lookup_cons, lookup_optionalAttribute]
  obtain ⟨htype, huid, hpath, hid⟩ := hheading
  have hkind : (extResourceSection entry).identifier = "ext_resource" := rfl
  simp only [readSection, hkind, readExtResource, Section.required_of_quoted htype,
    Section.optional_of_quoted huid, Section.required_of_quoted hpath,
    Section.required_of_quoted hid, Run.done_bind]
  rfl

/-- So is a sub-resource. -/
theorem readSection_subResourceSection (entry : Entry String SubResourceNode) :
    state.readSection (subResourceSection orders entry) = .done { state with
      subResources := state.subResources.insert entry.2.id
        { entry.2 with
          properties := numberedProperties (orders.subResourceProperties entry.1)
          idx := state.subResourceIdx }
      subResourceIdx := state.subResourceIdx + 1 } := by
  have hheading : (subResourceSection orders entry).heading "type" =
        some (quoted entry.2.resourceType) ∧
      (subResourceSection orders entry).heading "id" = some (quoted entry.2.id) := by
    constructor <;>
      simp [Section.heading, subResourceSection, GodotScene.subResourceAttributes,
        List.lookup_cons]
  obtain ⟨htype, hid⟩ := hheading
  have hkind : (subResourceSection orders entry).identifier = "sub_resource" := rfl
  have hproperties : (subResourceSection orders entry).orderedProperties =
      numberedProperties (orders.subResourceProperties entry.1) := orderedProperties_eq rfl
  simp only [readSection, hkind, hproperties, readSubResource, Section.required_of_quoted htype,
    Section.required_of_quoted hid, Run.done_bind]
  rfl

/-- A connection comes back, but for its ends. -/
theorem readSection_connectionSection {connection : GodotConnection} {fromPath toPath : String}
    (hspelled : connection.Spelled) : state.readSection (connectionSection
      (GodotScene.connectionAttributesWith connection fromPath toPath)) = .done { state with
        connectionsArr := state.connectionsArr ++ [(fromPath, toPath, { connection with
          fromNodeId := .unassigned, toNodeId := .unassigned })] } := by
  have hheads := GodotScene.headsConnection connection fromPath toPath
  generalize hinput : connectionSection
    (GodotScene.connectionAttributesWith connection fromPath toPath) = input at hheads ⊢
  have hheading : input.heading "flags" = connection.flags.map displayInteger ∧
      input.heading "unbinds" = connection.unbinds.map displayInteger ∧
      input.heading "binds" = connection.binds := by
    subst hinput
    refine ⟨?_, ?_, ?_⟩ <;>
      simp [Section.heading, connectionSection, GodotScene.connectionAttributesWith,
        List.lookup_append, List.lookup_cons, lookup_optionalAttribute]
  obtain ⟨hflags, hunbinds, hbinds⟩ := hheading
  have hkind : input.identifier = "connection" := by
    subst hinput
    rfl
  simp only [readSection, hkind, readConnection, Section.required_of_quoted hheads.signal,
    Section.required_of_quoted hheads.fromPath, Section.required_of_quoted hheads.toPath,
    Section.required_of_quoted hheads.method,
    Section.optionalArray_of_serialized hheads.fromUidPath hspelled.fromUidPath,
    Section.optionalArray_of_serialized hheads.toUidPath hspelled.toUidPath,
    Section.optional_of_standsAsIs hbinds hspelled.binds,
    Section.optionalInteger_of_display hflags hspelled.flags,
    Section.optionalInteger_of_display hunbinds hspelled.unbinds, Run.done_bind]
  rfl

theorem readSection_editableSection (path : String) :
    state.readSection (editableSection path) = .done { state with
      editableInstances := state.editableInstances ++ [path] } := by
  have hpath : (editableSection path).heading "path" = some (quoted path) := by
    simp [Section.heading, editableSection]
  have hkind : (editableSection path).identifier = "editable" := rfl
  simp only [readSection, hkind, readEditable, Section.required_of_quoted hpath, Run.done_bind]
  rfl

end Others

end SectionState

end Backstitch
