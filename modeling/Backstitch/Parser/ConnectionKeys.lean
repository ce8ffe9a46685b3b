/-
# Keys of connections

`parse_scene` keeps the connections whose two ends it finds in a map, under the text that
`GodotConnection::id` makes of them.  The text joins some of the fields with dashes, which the
fields may contain themselves; of two connections with one text, the later one replaces the
earlier one.
-/

import Backstitch.Parser.ParsedNodes

namespace Backstitch

/-! ## The connections of a text -/

/-- The connection of a section, if both ends are found. -/
def foundConnection (paths : HashMap String NodeId) (input : String × String × GodotConnection) :
    Option GodotConnection :=
  (paths.lookup input.1).bind fun fromNodeId =>
    (paths.lookup input.2.1).map fun toNodeId =>
      { input.2.2 with fromNodeId := fromNodeId, toNodeId := toNodeId }

theorem lookup_of_foundConnection {paths : HashMap String NodeId}
    {input : String × String × GodotConnection} {connection : GodotConnection}
    (hfound : foundConnection paths input = some connection) :
    paths.lookup input.1 = some connection.fromNodeId ∧
      paths.lookup input.2.1 = some connection.toNodeId := by
  obtain ⟨fromNodeId, hfrom, hrest⟩ := Option.bind_eq_some_iff.mp hfound
  obtain ⟨toNodeId, hto, rfl⟩ := Option.map_eq_some_iff.mp hrest
  exact ⟨hfrom, hto⟩

/-- A connection is that of a section of the text, and both ends are found. -/
def FoundIn (env : ParseEnv) (sections : List Section) (connection : GodotConnection) : Prop :=
  ∃ read placed, PlacesNodes env sections read placed ∧ ∃ input ∈ read.connectionsArr,
    foundConnection placed.nodeIdByNodePath input = some connection

/-- The connections that are found, in the order of their sections. -/
def foundConnections (env : ParseEnv) (fuel : ℕ) (sections : List Section) :
    Run (List GodotConnection) := do
  let read ← sections.foldlM SectionState.readSection {}
  let placed ← read.nodeArr.foldlM (fun state input => state.addNode env fuel input)
    ({ parsedNodeIds := read.parsedNodeIds } : NodeState)
  return read.connectionsArr.filterMap (foundConnection placed.nodeIdByNodePath)

theorem mem_foundConnections_iff {env : ParseEnv} {fuel : ℕ} {sections : List Section}
    {found : List GodotConnection} (hdone : foundConnections env fuel sections = .done found)
    {connection : GodotConnection} : connection ∈ found ↔ FoundIn env sections connection := by
  obtain ⟨read, hread, hrest⟩ := Run.bind_eq_done_iff.mp hdone
  obtain ⟨placed, hplaced, hreturn⟩ := Run.bind_eq_done_iff.mp hrest
  have hplaces : PlacesNodes env sections read placed := ⟨hread, fuel, hplaced⟩
  rw [← Run.done.inj hreturn, List.mem_filterMap]
  constructor
  · exact fun hfound => ⟨read, placed, hplaces, hfound⟩
  · rintro ⟨otherRead, otherPlaced, hother, hfound⟩
    obtain ⟨rfl, rfl⟩ := hplaces.unique hother
    exact hfound

/-- The map of a scene has every connection that was found. -/
def KeepsConnections (env : ParseEnv) (sections : List Section) (scene : GodotScene) : Prop :=
  ∀ connection, FoundIn env sections connection →
    ∃ key, scene.connections.lookup key = some connection

/-- Two connections that differ in any field have different keys. -/
def KeysDiffer (env : ParseEnv) (sections : List Section) : Prop :=
  ∀ first second, FoundIn env sections first → FoundIn env sections second → first ≠ second →
    first.id ≠ second.id

/-- An entry under the key of its connection. -/
def connectionEntry (connection : GodotConnection) : Entry String GodotConnection :=
  ⟨connection.id, connection⟩

theorem addConnection_eq {env : ParseEnv} {paths : HashMap String NodeId}
    {connections next : HashMap String GodotConnection}
    {input : String × String × GodotConnection}
    (hdone : addConnection env paths connections input = .done next) :
    next = (foundConnection paths input).elim connections fun connection =>
      connections.insert connection.id connection := by
  obtain ⟨fromPath, toPath, connection⟩ := input
  unfold addConnection at hdone
  unfold foundConnection
  dsimp only at hdone ⊢
  cases hfrom : paths.lookup fromPath with
  | none =>
      simp only [hfrom] at hdone
      split at hdone
      · exact (Run.done.inj hdone).symm
      · nomatch hdone
  | some fromNodeId =>
      cases hto : paths.lookup toPath with
      | none =>
          simp only [hfrom, hto] at hdone
          split at hdone
          · exact (Run.done.inj hdone).symm
          · nomatch hdone
      | some toNodeId =>
          simp only [hfrom, hto] at hdone
          exact (Run.done.inj hdone).symm

/-- The loop over the connections collects those that were found. -/
theorem foldlM_addConnection {env : ParseEnv} {paths : HashMap String NodeId}
    {inputs : List (String × String × GodotConnection)}
    {start final : HashMap String GodotConnection}
    (hdone : inputs.foldlM (addConnection env paths) start = .done final) :
    final = ((inputs.filterMap (foundConnection paths)).map connectionEntry).foldl
      (fun map entry => map.insert entry.1 entry.2) start := by
  induction inputs generalizing start with
  | nil => exact (Run.done.inj hdone).symm
  | cons input inputs ih =>
      obtain ⟨middle, hfirst, hrest⟩ := Run.foldlM_cons_eq_done_iff.mp hdone
      rw [ih hrest, addConnection_eq hfirst]
      cases hfound : foundConnection paths input with
      | none => rw [List.filterMap_cons_none hfound, Option.elim_none]
      | some connection =>
          rw [List.filterMap_cons_some hfound, Option.elim_some, List.map_cons, List.foldl_cons]
          rfl

section Parse

variable {env : ParseEnv} {sections : List Section} {scene : GodotScene}

/-- The connections of a parsed scene are those that were found, collected. -/
theorem ParsesTo.exists_connections (hparse : ParsesTo env sections scene) :
    ∃ found : List GodotConnection, (∀ connection, connection ∈ found ↔
        FoundIn env sections connection) ∧
      scene.connections = HashMap.collect (found.map connectionEntry) := by
  obtain ⟨fuel, hdone⟩ := hparse
  obtain ⟨read, hread, hrest⟩ := Run.bind_eq_done_iff.mp hdone
  obtain ⟨placed, hplaced, hrest⟩ := Run.bind_eq_done_iff.mp hrest
  obtain ⟨nodes, -, hrest⟩ := Run.bind_eq_done_iff.mp hrest
  obtain ⟨connections, hconnections, hrest⟩ := Run.bind_eq_done_iff.mp hrest
  have hfound : foundConnections env fuel sections =
      .done (read.connectionsArr.filterMap (foundConnection placed.nodeIdByNodePath)) :=
    Run.bind_eq_done_iff.mpr ⟨read, hread, Run.bind_eq_done_iff.mpr ⟨placed, hplaced, rfl⟩⟩
  refine ⟨_, fun connection => mem_foundConnections_iff hfound, ?_⟩
  split at hrest
  · nomatch hrest
  · cases hrest
    exact foldlM_addConnection hconnections

/-- Every connection of a parsed scene is that of a section. -/
theorem ParsesTo.foundIn (hparse : ParsesTo env sections scene) {key : String}
    {connection : GodotConnection} (hlookup : scene.connections.lookup key = some connection) :
    FoundIn env sections connection := by
  obtain ⟨found, hmem, hconnections⟩ := hparse.exists_connections
  rw [hconnections] at hlookup
  obtain ⟨stored, hstored, heq⟩ := List.mem_map.mp (HashMap.mem_of_lookup_collect hlookup)
  cases heq
  exact (hmem connection).mp hstored

/-- **The map has every connection exactly if different connections have different keys.** -/
theorem ParsesTo.keepsConnections_iff_keysDiffer (hparse : ParsesTo env sections scene) :
    KeepsConnections env sections scene ↔ KeysDiffer env sections := by
  obtain ⟨found, hmem, hconnections⟩ := hparse.exists_connections
  have hstored {key : String} {connection : GodotConnection}
      (hlookup : scene.connections.lookup key = some connection) :
      connection ∈ found ∧ connection.id = key := by
    rw [hconnections] at hlookup
    obtain ⟨stored, hmem, heq⟩ := List.mem_map.mp (HashMap.mem_of_lookup_collect hlookup)
    cases heq
    exact ⟨hmem, rfl⟩
  constructor
  · intro hkeeps first second hfirst hsecond hne hsame
    obtain ⟨key, hlookup⟩ := hkeeps first hfirst
    obtain ⟨otherKey, hother⟩ := hkeeps second hsecond
    obtain rfl := (hstored hlookup).2
    obtain rfl := (hstored hother).2
    rw [← hsame] at hother
    exact hne (Option.some.inj (hlookup.symm.trans hother))
  · intro hdiffer connection hfound
    have hkey : connection.id ∈ scene.connections := by
      rw [hconnections, HashMap.mem_collect]
      exact List.mem_map.mpr ⟨connectionEntry connection,
        List.mem_map_of_mem ((hmem connection).mpr hfound), rfl⟩
    obtain ⟨stored, hlookup⟩ := Finmap.mem_iff.mp hkey
    obtain ⟨hstoredMem, hid⟩ := hstored hlookup
    refine ⟨connection.id, ?_⟩
    rw [hlookup]
    by_contra hne
    exact hdiffer stored connection ((hmem stored).mp hstoredMem) hfound
      (fun heq => hne (congrArg some heq)) hid

end Parse

/-! ## Dashes -/

namespace GodotConnection

/-- The texts that the key of a connection joins. -/
def keyTexts (connection : GodotConnection) : List String :=
  [connection.signal, connection.fromNodeId.display, connection.toNodeId.display,
    connection.method, connection.flags.elim "" displayInteger,
    connection.unbinds.elim "" displayInteger, connection.binds.getD "[]"]

theorem id_eq_intercalate (connection : GodotConnection) :
    connection.id = (String.singleton '-').intercalate connection.keyTexts := by
  simp only [GodotConnection.id, keyTexts, String.intercalate_cons_cons,
    String.intercalate_singleton, String.append_assoc]
  rfl

/-- The number of dashes in these texts. -/
def dashCount (connection : GodotConnection) : ℕ :=
  (connection.keyTexts.map fun text => text.toList.count '-').sum

/-- The dashes of a key are those of its texts and the six between them. -/
theorem count_id (connection : GodotConnection) :
    connection.id.toList.count '-' = connection.dashCount + 6 := by
  rw [id_eq_intercalate]
  exact count_intercalate _

theorem length_keyTexts_eq (first second : GodotConnection) :
    first.keyTexts.length = second.keyTexts.length := rfl

theorem length_rest_eq {first second : GodotConnection} {front rest others : List String}
    {text other : String} (hfirst : first.keyTexts = front ++ text :: rest)
    (hsecond : second.keyTexts = front ++ other :: others) : rest.length = others.length := by
  have htexts := length_keyTexts_eq first second
  rw [hfirst, hsecond] at htexts
  simpa using htexts

/-- A text is another one, followed by a dash and more. -/
def DashedFrom (text other : String) : Prop := other.toList ++ ['-'] <+: text.toList

instance (text other : String) : Decidable (DashedFrom text other) :=
  inferInstanceAs (Decidable (_ <+: _))

/-- Two connections whose texts have different numbers of dashes, or of whose first different
texts neither is the other one followed by a dash and more, unless they are the last texts. -/
inductive Apart (first second : GodotConnection) : Prop
  | byDashes (hcount : first.dashCount ≠ second.dashCount)
  | byText {front rest others : List String} {text other : String}
      (hfirst : first.keyTexts = front ++ text :: rest)
      (hsecond : second.keyTexts = front ++ other :: others) (hne : text ≠ other)
      (hdashed : rest = [] ∨ ¬ DashedFrom text other ∧ ¬ DashedFrom other text)

/-- **The keys of connections that are apart differ.** -/
theorem Apart.id_ne {first second : GodotConnection} (hapart : first.Apart second) :
    first.id ≠ second.id := by
  intro hsame
  cases hapart with
  | byDashes hcount =>
      have hdashes : first.dashCount + 6 = second.dashCount + 6 := by
        rw [← count_id, ← count_id, hsame]
      exact hcount (Nat.add_right_cancel hdashes)
  | @byText front rest others text other hfirst hsecond hne hdashed =>
      have hlength := length_rest_eq hfirst hsecond
      rw [id_eq_intercalate, id_eq_intercalate, hfirst, hsecond] at hsame
      obtain ⟨hrest, hleads⟩ := prefix_of_intercalate_eq hlength hne hsame
      obtain ⟨htext, hother⟩ := hdashed.resolve_left hrest
      exact hleads.elim hother htext

/-- No text but the last contains a dash. -/
def Plain (connection : GodotConnection) : Prop :=
  ∀ text ∈ connection.keyTexts.dropLast, '-' ∉ text.toList

theorem Plain.not_dashedFrom {connection : GodotConnection} (hplain : connection.Plain)
    {front rest : List String} {text : String} (htexts : connection.keyTexts = front ++ text :: rest)
    (hrest : rest ≠ []) (other : String) : ¬ DashedFrom text other := by
  intro hdashed
  refine hplain text ?_ (hdashed.subset (by simp))
  rw [htexts, List.dropLast_append_cons, List.dropLast_cons_of_ne_nil hrest]
  simp

/-- **Connections that differ in the texts are apart, if only the last texts contain dashes.** -/
theorem Plain.apart {first second : GodotConnection} (hfirst : first.Plain)
    (hsecond : second.Plain) (hne : first.keyTexts ≠ second.keyTexts) : first.Apart second := by
  obtain ⟨front, text, other, rest, others, htexts, hothers, hdiffer⟩ :=
    exists_first_difference (length_keyTexts_eq first second) hne
  refine .byText htexts hothers hdiffer ?_
  by_cases hrest : rest = []
  · exact .inl hrest
  · have hnil : others ≠ [] := by
      rintro rfl
      exact hrest (List.length_eq_zero_iff.mp (length_rest_eq htexts hothers))
    exact .inr ⟨hfirst.not_dashedFrom htexts hrest other, hsecond.not_dashedFrom hothers hnil text⟩

end GodotConnection

/-- **When no connection is lost**: for any text that is accepted, if any two different connections
of it are apart; and only if any two of them differ in the fields that the key shows. -/
theorem keepsConnections_of_apart {env : ParseEnv} {sections : List Section} {scene : GodotScene}
    (hparse : ParsesTo env sections scene) :
    ((∀ first second, FoundIn env sections first → FoundIn env sections second → first ≠ second →
        first.Apart second) →
      KeepsConnections env sections scene ∧ KeysDiffer env sections) ∧
    (KeepsConnections env sections scene ∧ KeysDiffer env sections →
      ∀ first second, FoundIn env sections first → FoundIn env sections second →
        first ≠ second → first.keyTexts ≠ second.keyTexts) := by
  rw [hparse.keepsConnections_iff_keysDiffer, and_self]
  constructor
  · intro hapart first second hfirst hsecond hne
    exact (hapart first second hfirst hsecond hne).id_ne
  · intro hdiffer first second hfirst hsecond hne htexts
    apply hdiffer first second hfirst hsecond hne
    rw [GodotConnection.id_eq_intercalate, htexts, GodotConnection.id_eq_intercalate]

/-! ## Two connections that are kept -/

/-- The environment in which the scenes below are read. -/
def menuEnv : ParseEnv := ⟨fun _ => 7, fun _ => ""⟩

/-- The text of a menu whose button is connected twice, with different flags. -/
def menuSections : List Section :=
  [⟨"gd_scene", [("load_steps", "3"), ("format", "3"), ("uid", "\"uid://menu\"")], []⟩,
    ⟨"ext_resource", [("type", "\"Script\""), ("path", "\"res://menu.gd\""), ("id", "\"1\"")],
      []⟩,
    ⟨"sub_resource", [("type", "\"StyleBoxFlat\""), ("id", "\"box\"")],
      [("bg_color", "Color(1, 0, 0, 1)")]⟩,
    ⟨"node", [("name", "\"Menu\""), ("type", "\"Control\""), ("unique_id", "7")],
      [("script", "ExtResource(\"1\")")]⟩,
    ⟨"node", [("name", "\"Start\""), ("type", "\"Button\""), ("parent", "\".\""),
      ("unique_id", "8")], [("style", "SubResource(\"box\")")]⟩,
    ⟨"connection", [("signal", "\"pressed\""), ("from", "\"Start\""), ("to", "\".\""),
      ("method", "\"start\""), ("flags", "1")], []⟩,
    ⟨"connection", [("signal", "\"pressed\""), ("from", "\"Start\""), ("to", "\".\""),
      ("method", "\"start\""), ("flags", "2")], []⟩]

/-- One of the two connections. -/
def menuConnection (flags : ℤ) : GodotConnection where
  signal := "pressed"
  fromNodeId := ⟨8, none⟩
  toNodeId := ⟨7, none⟩
  method := "start"
  flags := some flags
  fromUidPath := none
  toUidPath := none
  unbinds := none
  binds := none

/-- The scene that is read, with both of them. -/
def menuScene : GodotScene where
  loadSteps := 3
  format := 3
  uid := "uid://menu"
  scriptClass := none
  resourceType := "PackedScene"
  rootNodeId := some ⟨7, none⟩
  extResources := Finmap.singleton "1"
    { resourceType := "Script", uid := none, path := "res://menu.gd", id := "1", idx := 0 }
  subResources := Finmap.singleton "box"
    { id := "box", resourceType := "StyleBoxFlat", idx := 0,
      properties := Finmap.singleton "bg_color" ⟨"Color(1, 0, 0, 1)", 0⟩ }
  connections := (Finmap.singleton "pressed-8-7-start-1--[]" (menuConnection 1)).insert
    "pressed-8-7-start-2--[]" (menuConnection 2)
  editableInstances := []
  mainResource := none
  nodes := (Finmap.singleton ⟨8, none⟩
    { GodotNode.bare ⟨8, none⟩ "Start" (some ⟨7, none⟩) [] with
      typeOrInstance := some (.ofType "Button")
      properties := Finmap.singleton "style" ⟨"SubResource(\"box\")", 0⟩ }).insert ⟨7, none⟩
    { GodotNode.bare ⟨7, none⟩ "Menu" none [⟨8, none⟩] with
      typeOrInstance := some (.ofType "Control")
      properties := Finmap.singleton "script" ⟨"ExtResource(\"1\")", 0⟩ }

theorem parsesTo_menuScene : ParsesTo menuEnv menuSections menuScene := ⟨9, by decide +kernel⟩

/-- The two connections are the ones that are found. -/
theorem foundIn_menuSections_iff {connection : GodotConnection} :
    FoundIn menuEnv menuSections connection ↔
      connection ∈ [menuConnection 1, menuConnection 2] := by
  have hfound : foundConnections menuEnv 9 menuSections =
      .done [menuConnection 1, menuConnection 2] := by decide +kernel
  exact (mem_foundConnections_iff hfound).symm

/-- Their texts differ first in the flags, neither of which has a dash. -/
theorem apart_menuConnection {first second : ℤ} (hne : displayInteger first ≠ displayInteger second)
    (hfirst : ¬ GodotConnection.DashedFrom (displayInteger first) (displayInteger second))
    (hsecond : ¬ GodotConnection.DashedFrom (displayInteger second) (displayInteger first)) :
    (menuConnection first).Apart (menuConnection second) :=
  @GodotConnection.Apart.byText _ _
    ["pressed", NodeId.display ⟨8, none⟩, NodeId.display ⟨7, none⟩, "start"] _ _ _ _ rfl rfl hne
    (.inr ⟨hfirst, hsecond⟩)

/-- **Both connections of the menu are kept.** -/
theorem keepsConnections_menuScene :
    KeepsConnections menuEnv menuSections menuScene ∧ KeysDiffer menuEnv menuSections := by
  refine (keepsConnections_of_apart parsesTo_menuScene).1 fun first second hfirst hsecond hne => ?_
  rw [foundIn_menuSections_iff] at hfirst hsecond
  rcases List.mem_pair.mp hfirst with rfl | rfl <;>
    rcases List.mem_pair.mp hsecond with rfl | rfl
  · exact absurd rfl hne
  · exact apart_menuConnection (by decide) (by decide) (by decide)
  · exact apart_menuConnection (by decide) (by decide) (by decide)
  · exact absurd rfl hne

/-! ## Two connections under one key -/

/-- The text of a scene with two connections that differ only in `from_uid_path`. -/
def twinSections : List Section :=
  [⟨"gd_scene", [("format", "3"), ("uid", "\"uid://scene\"")], []⟩,
    ⟨"node", [("name", "\"Root\""), ("type", "\"Node\""), ("unique_id", "7")], []⟩,
    ⟨"connection", [("signal", "\"hit\""), ("from", "\".\""), ("to", "\".\""),
      ("method", "\"on_hit\""), ("from_uid_path", "PackedInt32Array(1)")], []⟩,
    ⟨"connection", [("signal", "\"hit\""), ("from", "\".\""), ("to", "\".\""),
      ("method", "\"on_hit\""), ("from_uid_path", "PackedInt32Array(2)")], []⟩]

/-- One of the two connections. -/
def twinConnection (uid : Int32) : GodotConnection where
  signal := "hit"
  fromNodeId := ⟨7, none⟩
  toNodeId := ⟨7, none⟩
  method := "on_hit"
  flags := none
  fromUidPath := some [uid]
  toUidPath := none
  unbinds := none
  binds := none

/-- The scene that is read, with the second of them. -/
def twinScene : GodotScene where
  loadSteps := 0
  format := 3
  uid := "uid://scene"
  scriptClass := none
  resourceType := "PackedScene"
  rootNodeId := some ⟨7, none⟩
  extResources := ∅
  subResources := ∅
  connections := Finmap.singleton "hit-7-7-on_hit---[]" (twinConnection 2)
  editableInstances := []
  mainResource := none
  nodes := Finmap.singleton ⟨7, none⟩
    { GodotNode.bare ⟨7, none⟩ "Root" none [] with typeOrInstance := some (.ofType "Node") }

theorem parsesTo_twinScene : ParsesTo menuEnv twinSections twinScene :=
  ⟨1, by rfl⟩

theorem foundIn_twinSections :
    FoundIn menuEnv twinSections (twinConnection 1) := by
  have hfound : foundConnections menuEnv 1 twinSections =
      .done [twinConnection 1, twinConnection 2] := by rfl
  exact (mem_foundConnections_iff hfound).mp List.mem_cons_self

/-- **Of the two connections the first one is lost.** -/
theorem not_keepsConnections_twinScene :
    ParsesTo menuEnv twinSections twinScene ∧
      ¬ KeepsConnections menuEnv twinSections twinScene := by
  refine ⟨parsesTo_twinScene, fun hkeeps => ?_⟩
  obtain ⟨key, hlookup⟩ := hkeeps _ foundIn_twinSections
  obtain rfl := (Finmap.mem_singleton _ _ _).mp (Finmap.mem_of_lookup_eq_some hlookup)
  rw [twinScene, Finmap.lookup_singleton_eq] at hlookup
  exact absurd hlookup (by decide)

end Backstitch
