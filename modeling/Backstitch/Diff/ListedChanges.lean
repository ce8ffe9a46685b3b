/-
# What diffs list

A diff of two scenes is to have one entry for every node that is on one side only, or that has
another type or instance, or a property that differs; and the entry is to name the properties that
differ.  Sub-resources and main resources follow the same rule.  Values differ if their expansions
do.
-/

import Backstitch.Diff.SceneDiffer
import Backstitch.Parser.Parse
import Backstitch.Parser.Writable
import Mathlib.Algebra.Order.BigOperators.Group.List

namespace Backstitch

/-! ## Loops over ids -/

section CollectDiffs

variable {ι δ : Type} {diffOf : ι → Option (Option δ)}

/-- A call does not return if it is stuck, and otherwise there is a right entry if one is to be
shown. -/
structure Tells (Stuck Shown : Prop) (Right : δ → Prop) (result : Option (Option δ)) : Prop where
  stuck : result = none ↔ Stuck
  leftOut : result = some none → ¬ Shown
  entry : ∀ diff, result = some (some diff) → Shown ∧ Right diff

section Tells

variable {Stuck Shown : Prop} {Right : δ → Prop}

theorem Tells.of_stuck (hstuck : Stuck) : Tells Stuck Shown Right none where
  stuck := iff_of_true rfl hstuck
  leftOut hnone := nomatch hnone
  entry _ hdiff := nomatch hdiff

theorem Tells.of_leftOut (hfree : ¬ Stuck) (hshown : ¬ Shown) :
    Tells Stuck Shown Right (some none) where
  stuck := iff_of_false nofun hfree
  leftOut _ := hshown
  entry _ hdiff := nomatch hdiff

theorem Tells.of_entry {diff : δ} (hfree : ¬ Stuck) (hshown : Shown) (hright : Right diff) :
    Tells Stuck Shown Right (some (some diff)) where
  stuck := iff_of_false nofun hfree
  leftOut hnone := nomatch hnone
  entry other hother := by
    obtain rfl := Option.some.inj (Option.some.inj hother)
    exact ⟨hshown, hright⟩

theorem Tells.map {ε : Type} {Other : ε → Prop} {result : Option (Option δ)}
    (htells : Tells Stuck Shown Right result) {change : δ → ε}
    (hchange : ∀ diff, Right diff → Other (change diff)) :
    Tells Stuck Shown Other (result.map (Option.map change)) := by
  cases result with
  | none => exact .of_stuck (htells.stuck.mp rfl)
  | some found =>
      have hfree : ¬ Stuck := htells.stuck.not.mp nofun
      cases found with
      | none => exact .of_leftOut hfree (htells.leftOut rfl)
      | some diff =>
          obtain ⟨hshown, hright⟩ := htells.entry diff rfl
          exact .of_entry hfree hshown (hchange diff hright)

end Tells

open Classical in
/-- **A loop over ids returns if no call is stuck, and then has the entries of the ids that are to
be shown.** -/
theorem collectDiffs_tells {ids : List ι} {Stuck Shown : ι → Prop} {Right : ι → δ → Prop}
    (htells : ∀ id ∈ ids, Tells (Stuck id) (Shown id) (Right id) (diffOf id)) :
    (collectDiffs diffOf ids = none ↔ ∃ id ∈ ids, Stuck id) ∧
      ∀ diffs, collectDiffs diffOf ids = some diffs →
        List.Forall₂ Right (ids.filter fun id => decide (Shown id)) diffs := by
  induction ids with
  | nil =>
      refine ⟨iff_of_false nofun (by simp), fun diffs hdiffs => ?_⟩
      rw [← Option.some.inj hdiffs]
      exact .nil
  | cons id ids ih =>
      obtain ⟨hnone, hsome⟩ := ih fun other hother => htells other (List.mem_cons_of_mem id hother)
      obtain ⟨hstuck, hleftOut, hentry⟩ := htells id List.mem_cons_self
      rw [List.exists_mem_cons_iff, ← hstuck, ← hnone]
      rw [collectDiffs]
      cases hid : diffOf id with
      | none => exact ⟨iff_of_true rfl (.inl rfl), nofun⟩
      | some result =>
          cases result with
          | none =>
              rw [List.filter_cons, if_neg (by simpa using hleftOut hid)]
              exact ⟨by simp, hsome⟩
          | some diff =>
              obtain ⟨hshown, hright⟩ := hentry diff hid
              rw [List.filter_cons, if_pos (decide_eq_true hshown)]
              refine ⟨by simp, fun diffs hdiffs => ?_⟩
              obtain ⟨rest, hrest, rfl⟩ := Option.map_eq_some_iff.mp hdiffs
              exact .cons hright (hsome rest hrest)

theorem map_eq_map_of_forall₂ {ε : Type} (ofDiff : δ → ε) (ofId : ι → ε) {Right : ι → δ → Prop}
    {ids : List ι} {diffs : List δ} (hsame : ∀ id diff, Right id diff → ofDiff diff = ofId id)
    (hall : List.Forall₂ Right ids diffs) : diffs.map ofDiff = ids.map ofId := by
  induction hall with
  | nil => rfl
  | cons hright _ ih => rw [List.map_cons, List.map_cons, ih, hsame _ _ hright]

/-- If every id has at most as much as is wanted of it, and all entries together have what is
wanted, every id has. -/
theorem eq_of_sizes {ids shown : List ι} {diffs : List δ} (size : δ → ℕ) {wanted found : ι → ℕ}
    (hids : List.Forall₂ (fun id diff => size diff = wanted id) ids diffs)
    (hshown : List.Forall₂ (fun id diff => size diff = found id) shown diffs)
    (hnodup : shown.Nodup) (hsubset : shown ⊆ ids) (hle : ∀ id, found id ≤ wanted id) :
    ∀ id ∈ ids, found id = wanted id := by
  have hlength : ids.length ≤ shown.length := by rw [hids.length_eq, hshown.length_eq]
  have hperm : shown.Perm ids := (hnodup.subperm hsubset).perm_of_length_le hlength
  have hsum : (ids.map found).sum = (ids.map wanted).sum := by
    rw [← (hperm.map found).sum_eq,
      ← map_eq_map_of_forall₂ size found (fun _ _ hsize => hsize) hshown,
      map_eq_map_of_forall₂ size wanted (fun _ _ hsize => hsize) hids]
  intro id hid
  by_contra hne
  have hless : (ids.map found).sum < (ids.map wanted).sum :=
    List.sum_lt_sum found wanted (fun other _ => hle other)
      ⟨id, hid, lt_of_le_of_ne (hle id) hne⟩
  exact absurd hsum (Nat.ne_of_lt hless)

theorem bind_some_eq_none_iff {ε : Type} {first : Option δ} {result : δ → ε} :
    (first.bind fun diff => some (result diff)) = none ↔ first = none := by
  cases first <;> simp

theorem bind_bind_eq_none_iff {ε ζ : Type} {first : Option δ} {second : Option ε}
    {result : δ → ε → ζ} :
    (first.bind fun diff => second.bind fun entry => some (result diff entry)) = none ↔
      first = none ∨ second = none := by
  cases first <;> cases second <;> simp

end CollectDiffs

/-! ## Two versions -/

/-- A scene without cycles. -/
structure SceneVersion where
  scene : GodotScene
  acyclic : scene.Acyclic

/-- A part of a version that may not be there. -/
def SceneVersion.read {ν : Type} (version : Option SceneVersion) (part : GodotScene → Option ν) :
    Option ν :=
  (version.map SceneVersion.scene).bind part

/-- What is compared: two versions, of which one may be absent, and the orders in which a diff
goes through them. -/
structure SceneVersions where
  old : Option SceneVersion
  new : Option SceneVersion
  env : DiffEnv
  propOrders : ∀ version, new = some version → ∀ id node,
    version.scene.subResources.lookup id = some node →
      node.properties.Iterates (env.propOrders id)
  nodeIds : HashSet.Iterates
    (collectedNodeIds (old.map SceneVersion.scene) (new.map SceneVersion.scene)) env.nodeIds
  subResourceIds : HashSet.Iterates
    (collectedSubResourceIds (old.map SceneVersion.scene) (new.map SceneVersion.scene))
    env.subResourceIds
  nodeProps : ∀ id, HashSet.Iterates
    (collectedProps (SceneVersion.read old fun scene => scene.nodes.lookup id)
      (SceneVersion.read new fun scene => scene.nodes.lookup id)) (env.nodeProps id)
  subResourceProps : ∀ id, HashSet.Iterates
    (collectedProps (SceneVersion.read old fun scene => scene.subResources.lookup id)
      (SceneVersion.read new fun scene => scene.subResources.lookup id)) (env.subResourceProps id)
  mainResourceProps : HashSet.Iterates
    (collectedProps (SceneVersion.read old fun scene => scene.mainResource)
      (SceneVersion.read new fun scene => scene.mainResource)) env.mainResourceProps

namespace SceneVersions

variable (versions : SceneVersions)

def oldScene : Option GodotScene := versions.old.map SceneVersion.scene

def newScene : Option GodotScene := versions.new.map SceneVersion.scene

/-- The two scenes, if both are there. -/
def pair (oldVersion : SceneVersion) {newVersion : SceneVersion}
    (hnew : versions.new = some newVersion) : ScenePair where
  oldScene := oldVersion.scene
  newScene := newVersion.scene
  oldAcyclic := oldVersion.acyclic
  newAcyclic := newVersion.acyclic
  orders := versions.env.propOrders
  iterates := versions.propOrders newVersion hnew

end SceneVersions

/-- What two versions have under one id, which may be a node, a sub-resource or a main
resource. -/
structure NodeVersions (versions : SceneVersions) (ν : Type) where
  old : Option ν
  new : Option ν
  oldFound : ∀ node, old = some node → ∃ version, versions.old = some version
  newFound : ∀ node, new = some node → ∃ version, versions.new = some version

/-- One part of two versions. -/
def SceneVersions.parts (versions : SceneVersions) {ν : Type} (part : GodotScene → Option ν) :
    NodeVersions versions ν where
  old := SceneVersion.read versions.old part
  new := SceneVersion.read versions.new part
  oldFound node hnode := by
    obtain ⟨scene, hscene, -⟩ := Option.bind_eq_some_iff.mp hnode
    obtain ⟨version, hversion, -⟩ := Option.map_eq_some_iff.mp hscene
    exact ⟨version, hversion⟩
  newFound node hnode := by
    obtain ⟨scene, hscene, -⟩ := Option.bind_eq_some_iff.mp hnode
    obtain ⟨version, hversion, -⟩ := Option.map_eq_some_iff.mp hscene
    exact ⟨version, hversion⟩

/-- The expansion of a property, if version, node and property are there. -/
noncomputable def expandedAt {ν : Type} [PropertyGetter ν] (reads : TextReading)
    (version : Option SceneVersion) (node : Option ν) (name : String) : Option Expansion :=
  version.bind fun version => node.bind fun node =>
    version.scene.expandedProp reads (getProperties node) name

/-- The texts of the properties of a node are read as what they write. -/
def TextsAsWritten {ν : Type} [PropertyGetter ν] (node : Option ν) : Prop :=
  ∀ found name property, node = some found → (getProperties found).lookup name = some property →
    ReadAsWritten property.value

/-- So are the texts in all sub-resources of both scenes. -/
def SceneVersions.ScenesAsWritten (versions : SceneVersions) : Prop :=
  ∀ version, versions.old = some version ∨ versions.new = some version →
    version.scene.ReadsAsWritten

/-- A property whose text cannot be read. -/
def UnreadText {ν : Type} [PropertyGetter ν] (node : Option ν) (name : String) : Prop :=
  ∃ found property, node = some found ∧ (getProperties found).lookup name = some property ∧
    getVarstrValue property.value = none

namespace NodeVersions

variable {versions : SceneVersions} {ν : Type} [PropertyGetter ν]
  (nodes : NodeVersions versions ν)

/-- At least one side has it. -/
def Present : Prop := ¬ (nodes.old = none ∧ nodes.new = none)

/-- The expansions of a property differ, or only one side has it. -/
def DiffersBy (reads : TextReading) (name : String) : Prop :=
  expandedAt reads versions.old nodes.old name ≠ expandedAt reads versions.new nodes.new name

/-- A property was added, removed or changed in value. -/
def Differs (name : String) : Prop := nodes.DiffersBy asWritten name

/-- The texts of both sides are read as what they write. -/
def AsWritten : Prop := TextsAsWritten nodes.old ∧ TextsAsWritten nodes.new

/-- The entry of a diff is called for: the node is on one side only, or has another type or
instance, or a property that differs. -/
def Changed : Prop :=
  nodes.old.isSome ≠ nodes.new.isSome ∨
    nodes.old.bind getTypeOrInstance ≠ nodes.new.bind getTypeOrInstance ∨
    ∃ name, nodes.Differs name

/-- The changed properties of an entry are exactly those that differ, each under its name and with
the change type of the node. -/
def PropertiesListed (changed : HashMap String PropertyDiff) : Prop :=
  ∀ name, (name ∈ changed ↔ nodes.Differs name) ∧ ∀ diff, changed.lookup name = some diff →
    diff.name = name ∧ diff.changeType = changeTypeOf nodes.old nodes.new

/-- The values of a shared property are in a relation. -/
def Compared (relation : ScenePair → VariantStrValue → VariantStrValue → Prop)
    (name : String) : Prop :=
  ∃ oldVersion newVersion, ∃ hnew : versions.new = some newVersion,
    versions.old = some oldVersion ∧ ∃ oldNode newNode, nodes.old = some oldNode ∧
      nodes.new = some newNode ∧ ∃ oldValue newValue,
        ValuesAt (getProperties oldNode) (getProperties newNode) name oldValue newValue ∧
          relation (versions.pair oldVersion hnew) oldValue newValue

/-- A shared property differs in a hidden way. -/
def Hidden (name : String) : Prop := nodes.Compared ScenePair.Hidden name

/-- The comparison of a property comes to a text that cannot be read. -/
def Unreadable (name : String) : Prop :=
  UnreadText nodes.old name ∨ UnreadText nodes.new name ∨ nodes.Compared ScenePair.Broken name

/-- A property differs as it is read, and not only in a hidden way. -/
def Visible (name : String) : Prop :=
  nodes.DiffersBy getVarstrValue name ∧ ¬ nodes.Hidden name

/-! ## One property -/

variable {nodes} {reads : TextReading} {name : String}

theorem mem_propNames_iff {node : Option ν} :
    name ∈ propNames node ↔
      ∃ found property, node = some found ∧ (getProperties found).lookup name = some property := by
  cases node with
  | none => simp [propNames]
  | some found => simp [propNames, Finmap.mem_keys, Finmap.mem_iff]

theorem isSome_expandedAt (reads : TextReading) {version : Option SceneVersion} {node : Option ν}
    (hfound : ∀ found, node = some found → ∃ scene, version = some scene) :
    (expandedAt reads version node name).isSome ↔ name ∈ propNames node := by
  cases node with
  | none => cases version <;> simp [expandedAt, propNames]
  | some found =>
      obtain ⟨scene, rfl⟩ := hfound found rfl
      rw [expandedAt, Option.bind_some, Option.bind_some, GodotScene.expandedProp,
        Option.isSome_map, Finmap.lookup_isSome, propNames, Option.elim_some, Finmap.mem_keys]

/-- A property that both have can be compared. -/
theorem Compared.mem {relation : ScenePair → VariantStrValue → VariantStrValue → Prop}
    (hcompared : nodes.Compared relation name) :
    name ∈ propNames nodes.old ∧ name ∈ propNames nodes.new := by
  obtain ⟨_, _, _, _, oldNode, newNode, hold, hnew, _, _, hvalues, _⟩ := hcompared
  obtain ⟨oldProp, newProp, holdProp, hnewProp, -, -⟩ := hvalues
  exact ⟨mem_propNames_iff.mpr ⟨oldNode, oldProp, hold, holdProp⟩,
    mem_propNames_iff.mpr ⟨newNode, newProp, hnew, hnewProp⟩⟩

/-- A property that only one side has differs. -/
theorem differsBy_of_onlyOne
    (hone : ¬ (name ∈ propNames nodes.old ↔ name ∈ propNames nodes.new)) :
    nodes.DiffersBy reads name := by
  intro hsame
  apply hone
  rw [← isSome_expandedAt reads nodes.oldFound, ← isSome_expandedAt reads nodes.newFound, hsame]

theorem expandedAt_asWritten {version : Option SceneVersion} {node : Option ν}
    (hversion : ∀ found, version = some found → found.scene.ReadsAsWritten)
    (hnode : TextsAsWritten node) :
    expandedAt asWritten version node name = expandedAt getVarstrValue version node name := by
  cases version with
  | none => rfl
  | some version =>
      cases node with
      | none => rfl
      | some found =>
          rw [expandedAt, expandedAt, Option.bind_some, Option.bind_some, Option.bind_some,
            Option.bind_some, GodotScene.expandedProp, GodotScene.expandedProp]
          cases hproperty : (getProperties found).lookup name with
          | none => rfl
          | some property =>
              have hread : getVarstrValue property.value = some (writtenValue property.value) :=
                hnode found name property rfl hproperty
              rw [Option.map_some, Option.map_some,
                (hversion version rfl).expandText_eq version.acyclic, GodotScene.expandText, hread]
              rfl

/-- **Where texts are read as what they write, what differs is what differs as it is read.** -/
theorem differs_iff (hscenes : versions.ScenesAsWritten) (hnodes : nodes.AsWritten) :
    nodes.Differs name ↔ nodes.DiffersBy getVarstrValue name := by
  rw [Differs, DiffersBy, DiffersBy,
    expandedAt_asWritten (fun version hversion => hscenes version (.inl hversion)) hnodes.1,
    expandedAt_asWritten (fun version hversion => hscenes version (.inr hversion)) hnodes.2]

theorem getVarstrOrDefault_eq_none_iff {node : Option ν} :
    getVarstrOrDefault name node = none ↔ UnreadText node name := by
  cases node with
  | none => simp [getVarstrOrDefault, UnreadText]
  | some found =>
      cases hproperty : (getProperties found).lookup name with
      | none => simp [getVarstrOrDefault, UnreadText, hproperty]
      | some property => simp [getVarstrOrDefault, UnreadText, hproperty]

/-- What a call of `get_property_diff` is to tell. -/
abbrev TellsProperty (nodes : NodeVersions versions ν) (name : String) :
    Option (Option PropertyDiff) → Prop :=
  Tells (nodes.Unreadable name) (nodes.Visible name) fun diff =>
    diff.name = name ∧ diff.changeType = changeTypeOf nodes.old nodes.new

/-- `get_property_diff` tells what the comparison of the two values does. -/
theorem tellsProperty_of_reads {fuel : ℕ} {oldValue newValue : Option VariantStrValue}
    (hname : name ∈ collectedProps nodes.old nodes.new)
    (hold : getVarstrOrDefault name nodes.old = some oldValue)
    (hnew : getVarstrOrDefault name nodes.new = some newValue)
    {result : Option Bool}
    (hresult : didPropChange versions.env.propOrders fuel oldValue newValue versions.oldScene
      versions.newScene = result)
    (hbroken : result = none ↔ nodes.Unreadable name)
    (htrue : result = some true → nodes.Visible name)
    (hfalse : result = some false → ¬ nodes.Visible name) :
    nodes.TellsProperty name (versions.env.getPropertyDiff fuel name nodes.old nodes.new
      versions.oldScene versions.newScene) := by
  have habsent : (nodes.new.isNone && nodes.old.isNone) = false := by
    rcases Finset.mem_union.mp hname with hmem | hmem
    · obtain ⟨found, -, hfound, -⟩ := mem_propNames_iff.mp hmem
      simp [hfound]
    · obtain ⟨found, -, hfound, -⟩ := mem_propNames_iff.mp hmem
      simp [hfound]
  rw [DiffEnv.getPropertyDiff, habsent, if_neg Bool.false_ne_true, hold, hnew]
  simp only [Option.bind_eq_bind, Option.bind_some, hresult]
  cases result with
  | none => exact .of_stuck (hbroken.mp rfl)
  | some changed =>
      have hreadable : ¬ nodes.Unreadable name := hbroken.not.mp nofun
      cases changed with
      | true => exact .of_entry hreadable (htrue rfl) ⟨rfl, rfl⟩
      | false => exact .of_leftOut hreadable (hfalse rfl)

theorem tellsProperty_of_unreadText {fuel : ℕ}
    (hunread : UnreadText nodes.old name ∨ UnreadText nodes.new name) :
    nodes.TellsProperty name (versions.env.getPropertyDiff fuel name nodes.old nodes.new
      versions.oldScene versions.newScene) := by
  have hnone : versions.env.getPropertyDiff fuel name nodes.old nodes.new versions.oldScene
      versions.newScene = none := by
    rw [DiffEnv.getPropertyDiff, if_neg]
    · rcases hunread with hunread | hunread
      · rw [getVarstrOrDefault_eq_none_iff.mpr hunread]
        rfl
      · rw [getVarstrOrDefault_eq_none_iff.mpr hunread]
        cases getVarstrOrDefault name nodes.old with
        | none => rfl
        | some value => rfl
    · rcases hunread with ⟨found, -, hfound, -⟩ | ⟨found, -, hfound, -⟩
      · simp [hfound]
      · simp [hfound]
  rw [hnone]
  exact .of_stuck (hunread.imp_right .inl)

/-- A default value differs from every other value. -/
theorem didPropChange_defaultValue (orders : PropOrders) (fuel : ℕ)
    (typeOrInstance : Option TypeOrInstance) (prop : String) (value : VariantStrValue)
    (oldScene newScene : Option GodotScene) :
    didPropChange orders (fuel + 1) (some (.defaultValue typeOrInstance prop)) (some value)
        oldScene newScene = some true ∧
      didPropChange orders (fuel + 1) (some value) (some (.defaultValue typeOrInstance prop))
        oldScene newScene = some true := by
  cases oldScene with
  | none => exact ⟨rfl, rfl⟩
  | some oldScene =>
      cases newScene with
      | none => exact ⟨rfl, rfl⟩
      | some newScene => cases value <;> exact ⟨rfl, rfl⟩

/-- What is compared with the text of a property that the node does not have. -/
theorem getVarstrOrDefault_of_not_mem {node : Option ν} (hname : name ∉ propNames node) :
    getVarstrOrDefault name node = some none ∨
      ∃ typeOrInstance, getVarstrOrDefault name node =
        some (some (.defaultValue typeOrInstance name)) := by
  cases node with
  | none => exact .inl rfl
  | some found =>
      have hlookup : (getProperties found).lookup name = none := by
        rw [Finmap.lookup_eq_none]
        simpa [propNames, Finmap.mem_keys] using hname
      exact .inr ⟨getTypeOrInstance found, by rw [getVarstrOrDefault, hlookup]⟩

theorem getVarstrOrDefault_of_mem {node : Option ν} (hname : name ∈ propNames node)
    (hread : ¬ UnreadText node name) :
    ∃ found property value, node = some found ∧
      (getProperties found).lookup name = some property ∧
      getVarstrValue property.value = some value ∧
      getVarstrOrDefault name node = some (some value) := by
  obtain ⟨found, property, rfl, hproperty⟩ := mem_propNames_iff.mp hname
  cases hvalue : getVarstrValue property.value with
  | none => exact absurd ⟨found, property, rfl, hproperty, hvalue⟩ hread
  | some value =>
      refine ⟨found, property, value, rfl, hproperty, hvalue, ?_⟩
      simp only [getVarstrOrDefault, hproperty, hvalue, Option.map_some]

/-- **A property that only one side has is told to differ.** -/
theorem tellsProperty_of_onlyOne {fuel : ℕ}
    (hname : name ∈ collectedProps nodes.old nodes.new)
    (hold : ¬ UnreadText nodes.old name) (hnew : ¬ UnreadText nodes.new name)
    (hone : ¬ (name ∈ propNames nodes.old ↔ name ∈ propNames nodes.new)) :
    nodes.TellsProperty name (versions.env.getPropertyDiff (fuel + 1) name nodes.old nodes.new
      versions.oldScene versions.newScene) := by
  have hreadable : ¬ nodes.Unreadable name := by
    rintro (hunread | hunread | hbroken)
    · exact hold hunread
    · exact hnew hunread
    · exact hone (iff_of_true hbroken.mem.1 hbroken.mem.2)
  have hvisible : nodes.Visible name :=
    ⟨differsBy_of_onlyOne hone, fun hhidden => hone (iff_of_true hhidden.mem.1 hhidden.mem.2)⟩
  have hcompares {oldValue newValue : Option VariantStrValue}
      (hresult : didPropChange versions.env.propOrders (fuel + 1) oldValue newValue
        versions.oldScene versions.newScene = some true)
      (holdRead : getVarstrOrDefault name nodes.old = some oldValue)
      (hnewRead : getVarstrOrDefault name nodes.new = some newValue) :
      nodes.TellsProperty name (versions.env.getPropertyDiff (fuel + 1) name nodes.old nodes.new
        versions.oldScene versions.newScene) :=
    tellsProperty_of_reads hname holdRead hnewRead hresult (iff_of_false nofun hreadable)
      (fun _ => hvisible) nofun
  by_cases hmem : name ∈ propNames nodes.old
  · obtain ⟨_, _, value, _, _, _, hread⟩ := getVarstrOrDefault_of_mem hmem hold
    rcases getVarstrOrDefault_of_not_mem fun hother => hone (iff_of_true hmem hother) with
      habsent | ⟨typeOrInstance, hdefault⟩
    · exact hcompares rfl hread habsent
    · exact hcompares (didPropChange_defaultValue _ _ _ _ _ _ _).2 hread hdefault
  · have hother := (Finset.mem_union.mp hname).resolve_left hmem
    obtain ⟨_, _, value, _, _, _, hread⟩ := getVarstrOrDefault_of_mem hother hnew
    rcases getVarstrOrDefault_of_not_mem hmem with habsent | ⟨typeOrInstance, hdefault⟩
    · exact hcompares rfl habsent hread
    · exact hcompares (didPropChange_defaultValue _ _ _ _ _ _ _).1 hdefault hread

/-- **The comparison of a shared property tells whether it differs visibly.** -/
theorem tellsProperty_of_both (hname : name ∈ collectedProps nodes.old nodes.new)
    (hold : ¬ UnreadText nodes.old name) (hnew : ¬ UnreadText nodes.new name)
    (holdName : name ∈ propNames nodes.old) (hnewName : name ∈ propNames nodes.new) :
    ∀ᶠ fuel in Filter.atTop, nodes.TellsProperty name
      (versions.env.getPropertyDiff fuel name nodes.old nodes.new versions.oldScene
        versions.newScene) := by
  obtain ⟨oldNode, oldProp, oldValue, holdNode, holdProp, holdValue, holdRead⟩ :=
    getVarstrOrDefault_of_mem holdName hold
  obtain ⟨newNode, newProp, newValue, hnewNode, hnewProp, hnewValue, hnewRead⟩ :=
    getVarstrOrDefault_of_mem hnewName hnew
  obtain ⟨oldVersion, holdVersion⟩ := nodes.oldFound oldNode holdNode
  obtain ⟨newVersion, hnewVersion⟩ := nodes.newFound newNode hnewNode
  have hvalues : ValuesAt (getProperties oldNode) (getProperties newNode) name oldValue newValue :=
    ⟨oldProp, newProp, holdProp, hnewProp, holdValue, hnewValue⟩
  have hcompared (relation : ScenePair → VariantStrValue → VariantStrValue → Prop) :
      nodes.Compared relation name ↔
        relation (versions.pair oldVersion hnewVersion) oldValue newValue := by
    constructor
    · rintro ⟨otherOld, otherNew, hotherNew, hotherOld, foundOld, foundNew, hfoundOld, hfoundNew,
        readOld, readNew, hread, hrelation⟩
      obtain rfl := Option.some.inj (holdVersion.symm.trans hotherOld)
      obtain rfl := Option.some.inj (hnewVersion.symm.trans hotherNew)
      obtain rfl := Option.some.inj (holdNode.symm.trans hfoundOld)
      obtain rfl := Option.some.inj (hnewNode.symm.trans hfoundNew)
      obtain ⟨rfl, rfl⟩ := hvalues.unique hread
      exact hrelation
    · intro hrelation
      exact ⟨oldVersion, newVersion, hnewVersion, holdVersion, oldNode, newNode, holdNode, hnewNode,
        oldValue, newValue, hvalues, hrelation⟩
  have hdiffers : nodes.DiffersBy getVarstrValue name ↔
      ¬ (versions.pair oldVersion hnewVersion).Same oldValue newValue := by
    rw [← ScenePair.sameProp_iff hvalues, DiffersBy, expandedAt, expandedAt, holdVersion,
      hnewVersion, holdNode, hnewNode]
    rfl
  have hvisible : nodes.Visible name ↔
      (versions.pair oldVersion hnewVersion).Visible oldValue newValue := by
    rw [Visible, hdiffers, Hidden, hcompared]
    rfl
  have hunreadable : nodes.Unreadable name ↔
      (versions.pair oldVersion hnewVersion).Broken oldValue newValue := by
    rw [Unreadable, or_iff_right hold, or_iff_right hnew, hcompared]
  have hdecided : (versions.pair oldVersion hnewVersion).Decided oldValue newValue :=
    ScenePair.decided fun hunset => kind_ne_unset hnewValue hunset.2
  filter_upwards [hdecided] with fuel htold
  refine tellsProperty_of_reads hname holdRead hnewRead ?_ (htold.broken.trans hunreadable.symm)
    (fun htrue => hvisible.mpr (htold.visible htrue))
    (fun hfalse => hvisible.not.mpr (htold.notVisible hfalse))
  rw [SceneVersions.oldScene, SceneVersions.newScene, holdVersion, hnewVersion]
  rfl

/-- **From some depth on, every property is told to differ if it does so visibly.** -/
theorem tellsProperty (hname : name ∈ collectedProps nodes.old nodes.new) :
    ∀ᶠ fuel in Filter.atTop, nodes.TellsProperty name
      (versions.env.getPropertyDiff fuel name nodes.old nodes.new versions.oldScene
        versions.newScene) := by
  by_cases hold : UnreadText nodes.old name
  · exact .of_forall fun fuel => tellsProperty_of_unreadText (.inl hold)
  by_cases hnew : UnreadText nodes.new name
  · exact .of_forall fun fuel => tellsProperty_of_unreadText (.inr hnew)
  by_cases hone : name ∈ propNames nodes.old ↔ name ∈ propNames nodes.new
  · have hboth : name ∈ propNames nodes.old ∧ name ∈ propNames nodes.new := by
      rcases Finset.mem_union.mp hname with hmem | hmem
      · exact ⟨hmem, hone.mp hmem⟩
      · exact ⟨hone.mpr hmem, hmem⟩
    exact tellsProperty_of_both hname hold hnew hboth.1 hboth.2
  · refine Filter.eventually_atTop.mpr ⟨1, fun fuel hfuel => ?_⟩
    obtain ⟨depth, rfl⟩ := Nat.exists_eq_add_of_le' hfuel
    exact tellsProperty_of_onlyOne hname hold hnew hone

/-! ## All properties of a node -/

variable (nodes) in
/-- The changed properties that are found are those that differ visibly. -/
def PropertiesFound (changed : HashMap String PropertyDiff) : Prop :=
  ∀ name, (name ∈ changed ↔ nodes.Visible name) ∧ ∀ diff, changed.lookup name = some diff →
    diff.name = name ∧ diff.changeType = changeTypeOf nodes.old nodes.new

variable (nodes) in
/-- What the map of changed properties has under a name. -/
def EntryFor (name : String) (entry : Entry String PropertyDiff) : Prop :=
  entry.1 = name ∧ entry.2.name = name ∧
    entry.2.changeType = changeTypeOf nodes.old nodes.new

theorem mem_of_unreadable (hunreadable : nodes.Unreadable name) :
    name ∈ collectedProps nodes.old nodes.new := by
  rcases hunreadable with ⟨found, property, hfound, hproperty, -⟩ |
    ⟨found, property, hfound, hproperty, -⟩ | hbroken
  · exact Finset.mem_union_left _ (mem_propNames_iff.mpr ⟨found, property, hfound, hproperty⟩)
  · exact Finset.mem_union_right _ (mem_propNames_iff.mpr ⟨found, property, hfound, hproperty⟩)
  · exact Finset.mem_union_left _ hbroken.mem.1

theorem mem_of_differsBy (hdiffers : nodes.DiffersBy reads name) :
    name ∈ collectedProps nodes.old nodes.new := by
  by_contra habsent
  rw [collectedProps, Finset.mem_union, not_or] at habsent
  rw [← isSome_expandedAt reads nodes.oldFound, ← isSome_expandedAt reads nodes.newFound]
    at habsent
  rw [DiffersBy, Option.not_isSome_iff_eq_none.mp habsent.1,
    Option.not_isSome_iff_eq_none.mp habsent.2] at hdiffers
  exact hdiffers rfl

/-- What is hidden differs. -/
theorem Hidden.differs (hhidden : nodes.Hidden name) : nodes.DiffersBy getVarstrValue name := by
  obtain ⟨oldVersion, newVersion, hnewVersion, holdVersion, oldNode, newNode, holdNode, hnewNode,
    oldValue, newValue, hvalues, hhidden⟩ := hhidden
  rw [DiffersBy, expandedAt, expandedAt, holdVersion, hnewVersion, holdNode, hnewNode]
  exact (ScenePair.sameProp_iff hvalues).not.mpr hhidden.not_same

open Classical in
/-- **The map of changed properties has those that differ visibly.** -/
theorem tellsProperties {props : List String}
    (hprops : HashSet.Iterates (collectedProps nodes.old nodes.new) props) :
    ∀ᶠ fuel in Filter.atTop,
      (versions.env.changedProperties fuel props nodes.old nodes.new versions.oldScene
        versions.newScene = none ↔ ∃ name, nodes.Unreadable name) ∧
      ∀ changed, versions.env.changedProperties fuel props nodes.old nodes.new versions.oldScene
        versions.newScene = some changed → nodes.PropertiesFound changed := by
  have hall : ∀ᶠ fuel in Filter.atTop, ∀ name ∈ {name | name ∈ props}, nodes.TellsProperty name
      (versions.env.getPropertyDiff fuel name nodes.old nodes.new versions.oldScene
        versions.newScene) :=
    (Filter.eventually_all_finite (List.finite_toSet props)).mpr fun name hname =>
      tellsProperty (hprops.mem_iff.mp hname)
  filter_upwards [hall] with fuel htells
  have hentries : ∀ name ∈ props, Tells (nodes.Unreadable name) (nodes.Visible name)
      (nodes.EntryFor name) ((versions.env.getPropertyDiff fuel name nodes.old nodes.new
        versions.oldScene versions.newScene).map
          (Option.map fun diff => (⟨name, diff⟩ : Entry String PropertyDiff))) :=
    fun name hname => (htells name hname).map fun diff hright => ⟨rfl, hright⟩
  obtain ⟨hnone, hsome⟩ := collectDiffs_tells hentries
  refine ⟨?_, fun changed hchanged => ?_⟩
  · rw [DiffEnv.changedProperties, Option.map_eq_none_iff, hnone]
    constructor
    · rintro ⟨name, -, hunreadable⟩
      exact ⟨name, hunreadable⟩
    · rintro ⟨name, hunreadable⟩
      exact ⟨name, hprops.mem_iff.mpr (mem_of_unreadable hunreadable), hunreadable⟩
  · obtain ⟨entries, hentries, rfl⟩ := Option.map_eq_some_iff.mp hchanged
    have hright := hsome entries hentries
    have hkeys := map_eq_map_of_forall₂ Sigma.fst id (fun name entry hentry => hentry.1) hright
    rw [List.map_id] at hkeys
    have hnodup : (entries.map Sigma.fst).Nodup := by
      rw [hkeys]
      exact hprops.nodup.filter _
    intro name
    constructor
    · rw [← (HashMap.iterates_collect hnodup).mem_keys_iff, hkeys, List.mem_filter,
        decide_eq_true_iff]
      refine and_iff_right_of_imp fun hvisible => ?_
      exact hprops.mem_iff.mpr (mem_of_differsBy hvisible.1)
    · intro diff hdiff
      obtain ⟨found, -, rfl, hentry⟩ :=
        exists_of_mem_right hright ((HashMap.lookup_collect hnodup).mp hdiff)
      exact hentry

/-! ## One entry -/

variable (nodes) in
/-- An entry is called for, as far as differences are visible. -/
def Seen : Prop :=
  nodes.old.isSome ≠ nodes.new.isSome ∨
    nodes.old.bind getTypeOrInstance ≠ nodes.new.bind getTypeOrInstance ∨
    ∃ name, nodes.Visible name

variable (nodes) in
/-- Nothing about the properties is unreadable or hidden. -/
def Clear : Prop := ∀ name, ¬ nodes.Unreadable name ∧ ¬ nodes.Hidden name

section AsWritten

variable (hscenes : versions.ScenesAsWritten) (hnodes : nodes.AsWritten)
include hscenes hnodes

/-- Then nothing is unreadable. -/
theorem clear_iff : nodes.Clear ↔ ∀ name, ¬ nodes.Hidden name := by
  refine ⟨fun hclear name => (hclear name).2, fun hseen name => ⟨?_, hseen name⟩⟩
  rintro (⟨node, property, hnode, hproperty, hnone⟩ | ⟨node, property, hnode, hproperty, hnone⟩ |
    ⟨oldVersion, newVersion, hnew, hold, _, _, _, _, _, _, _, hbroken⟩)
  · exact nomatch hnone.symm.trans (hnodes.1 node name property hnode hproperty)
  · exact nomatch hnone.symm.trans (hnodes.2 node name property hnode hproperty)
  · exact ScenePair.not_broken (hscenes oldVersion (.inl hold)) (hscenes newVersion (.inr hnew))
      hbroken

theorem Clear.visible_iff (hclear : nodes.Clear) : nodes.Visible name ↔ nodes.Differs name := by
  rw [differs_iff hscenes hnodes]
  exact and_iff_left (hclear name).2

theorem Clear.seen_iff (hclear : nodes.Clear) : nodes.Seen ↔ nodes.Changed := by
  simp only [Seen, Changed, hclear.visible_iff hscenes hnodes]

theorem Clear.propertiesListed (hclear : nodes.Clear) {changed : HashMap String PropertyDiff}
    (hfound : nodes.PropertiesFound changed) : nodes.PropertiesListed changed :=
  fun name => ⟨(hfound name).1.trans (hclear.visible_iff hscenes hnodes), (hfound name).2⟩

theorem Seen.changed (hseen : nodes.Seen) : nodes.Changed := by
  refine hseen.imp_right (Or.imp_right ?_)
  rintro ⟨name, hvisible⟩
  exact ⟨name, (differs_iff hscenes hnodes).mpr hvisible.1⟩

theorem Hidden.changed (hhidden : nodes.Hidden name) : nodes.Changed :=
  .inr (.inr ⟨name, (differs_iff hscenes hnodes).mpr hhidden.differs⟩)

end AsWritten

omit [PropertyGetter ν] in
theorem Present.isNone_eq_false (hpresent : nodes.Present) :
    (nodes.old.isNone && nodes.new.isNone) = false := by
  rw [Bool.eq_false_iff, ne_eq, Bool.and_eq_true, Option.isNone_iff_eq_none,
    Option.isNone_iff_eq_none]
  exact hpresent

/-- Where neither side has a node, there is nothing to be said. -/
theorem clear_of_absent (habsent : ¬ nodes.Present) : nodes.Clear := by
  obtain ⟨hold, hnew⟩ := not_not.mp habsent
  intro name
  have hnames : name ∉ collectedProps nodes.old nodes.new := by
    rw [hold, hnew]
    simp [collectedProps, propNames]
  exact ⟨fun hunreadable => hnames (mem_of_unreadable hunreadable),
    fun hhidden => hnames (mem_of_differsBy hhidden.differs)⟩

theorem asWritten_of_absent (habsent : ¬ nodes.Present) : nodes.AsWritten := by
  obtain ⟨hold, hnew⟩ := not_not.mp habsent
  constructor
  · intro node name property hnode
    exact nomatch hold.symm.trans hnode
  · intro node name property hnode
    exact nomatch hnew.symm.trans hnode

/-- What is on one side only, or differs in some way, is there. -/
theorem present_of_differsBy (hdiffers : nodes.old.isSome ≠ nodes.new.isSome ∨
    nodes.old.bind getTypeOrInstance ≠ nodes.new.bind getTypeOrInstance ∨
      ∃ name, nodes.DiffersBy reads name) : nodes.Present := by
  rintro ⟨hold, hnew⟩
  rcases hdiffers with hone | htype | ⟨name, hdiffers⟩
  · rw [hold, hnew] at hone
    exact hone rfl
  · rw [hold, hnew] at htype
    exact htype rfl
  · have hmem := mem_of_differsBy hdiffers
    rw [hold, hnew] at hmem
    simp [collectedProps, propNames] at hmem

theorem Changed.present (hchanged : nodes.Changed) : nodes.Present :=
  present_of_differsBy hchanged

theorem Seen.present (hseen : nodes.Seen) : nodes.Present :=
  present_of_differsBy (hseen.imp_right (Or.imp_right fun ⟨name, hvisible⟩ => ⟨name, hvisible.1⟩))

open Classical in
theorem PropertiesFound.keys {changed : HashMap String PropertyDiff}
    (hfound : nodes.PropertiesFound changed) :
    changed.keys = (collectedProps nodes.old nodes.new).filter fun name => nodes.Visible name := by
  ext name
  rw [Finmap.mem_keys, (hfound name).1, Finset.mem_filter]
  exact (and_iff_right_of_imp fun hvisible => mem_of_differsBy hvisible.1).symm

open Classical in
theorem PropertiesListed.keys {changed : HashMap String PropertyDiff}
    (hlisted : nodes.PropertiesListed changed) :
    changed.keys = (collectedProps nodes.old nodes.new).filter fun name => nodes.Differs name := by
  ext name
  rw [Finmap.mem_keys, (hlisted name).1, Finset.mem_filter]
  exact (and_iff_right_of_imp mem_of_differsBy).symm

/-- The test by which a node is left out. -/
theorem leftOut_iff {changed : HashMap String PropertyDiff} (hfound : nodes.PropertiesFound changed)
    (hpresent : nodes.Present) :
    (nodes.old.isSome && nodes.new.isSome && decide (changed = ∅) &&
      decide (nodes.old.bind getTypeOrInstance = nodes.new.bind getTypeOrInstance)) = true ↔
      ¬ nodes.Seen := by
  have hempty : changed = ∅ ↔ ¬ ∃ name, nodes.Visible name := by
    constructor
    · rintro rfl ⟨name, hvisible⟩
      exact Finmap.notMem_empty ((hfound name).1.mpr hvisible)
    · intro hnone
      refine Finmap.ext_lookup fun name => ?_
      rw [Finmap.lookup_empty, Finmap.lookup_eq_none]
      exact fun hmem => hnone ⟨name, (hfound name).1.mp hmem⟩
  have hboth : nodes.old.isSome = true ∧ nodes.new.isSome = true ↔
      nodes.old.isSome = nodes.new.isSome := by
    cases hold : nodes.old with
    | none =>
        cases hnew : nodes.new with
        | none => exact absurd ⟨hold, hnew⟩ hpresent
        | some node => simp
    | some node => cases nodes.new <;> simp
  rw [Bool.and_eq_true, Bool.and_eq_true, Bool.and_eq_true, decide_eq_true_iff,
    decide_eq_true_iff, hboth, hempty, Seen, not_or, not_or, not_ne_iff, not_ne_iff]
  tauto

end NodeVersions

/-! ## Nodes -/

namespace NodeVersions

variable {versions : SceneVersions} (nodes : NodeVersions versions GodotNode) (nodeId : NodeId)

/-- What is right about an entry of a node besides its properties. -/
structure NodeEntry (diff : NodeDiff) : Prop where
  changeType : diff.changeType = changeTypeOf nodes.old nodes.new
  nodePath : ∃ scene fuel, pathScene nodes.old nodes.new versions.oldScene versions.newScene =
    some scene ∧ scene.getNodePath fuel nodeId = .done diff.nodePath
  nodeType : diff.nodeType =
    (nodes.new.bind getTypeOrInstance).or (nodes.old.bind getTypeOrInstance)

/-- The entry of a node lists exactly what differs. -/
def NodeListed (diff : NodeDiff) : Prop :=
  nodes.NodeEntry nodeId diff ∧ nodes.PropertiesListed diff.changedProperties

def NodeFound (diff : NodeDiff) : Prop :=
  nodes.NodeEntry nodeId diff ∧ nodes.PropertiesFound diff.changedProperties

/-- The walk from a node up to the root comes to an end. -/
def HasNodePath : Prop :=
  ∃ scene, pathScene nodes.old nodes.new versions.oldScene versions.newScene = some scene ∧
    scene.HasPath nodeId

variable {nodes nodeId}

theorem NodeEntry.hasNodePath {diff : NodeDiff} (hentry : nodes.NodeEntry nodeId diff) :
    nodes.HasNodePath nodeId := by
  obtain ⟨scene, fuel, hscene, hdone⟩ := hentry.nodePath
  exact ⟨scene, hscene, GodotScene.exists_getNodePath_iff.mp ⟨fuel, diff.nodePath, hdone⟩⟩

theorem exists_pathScene (hpresent : nodes.Present) :
    ∃ scene, pathScene nodes.old nodes.new versions.oldScene versions.newScene = some scene := by
  cases hnew : nodes.new with
  | some node =>
      obtain ⟨version, hversion⟩ := nodes.newFound node hnew
      refine ⟨version.scene, ?_⟩
      rw [SceneVersions.newScene, hversion]
      cases nodes.old <;> rfl
  | none =>
      cases hold : nodes.old with
      | none => exact absurd ⟨hold, hnew⟩ hpresent
      | some node =>
          obtain ⟨version, hversion⟩ := nodes.oldFound node hold
          refine ⟨version.scene, ?_⟩
          rw [SceneVersions.oldScene, hversion]
          rfl

/-- From some depth on, a path is there or never will be. -/
theorem eventually_getNodePath (scene : GodotScene) (nodeId : NodeId) :
    ∀ᶠ fuel in Filter.atTop,
      (scene.HasPath nodeId → ∃ path, scene.getNodePath fuel nodeId = .done path) := by
  by_cases hpath : scene.HasPath nodeId
  · obtain ⟨bound, path, hdone⟩ := GodotScene.exists_getNodePath_iff.mpr hpath
    refine Filter.eventually_atTop.mpr ⟨bound, fun fuel hfuel _ => ⟨path, ?_⟩⟩
    exact scene.getNodePath_mono hdone hfuel
  · exact .of_forall fun fuel hhas => absurd hhas hpath

/-- **From some depth on, the entry of a node is found if one is called for.** -/
theorem tellsNode {props : List String}
    (hprops : HashSet.Iterates (collectedProps nodes.old nodes.new) props) :
    ∀ᶠ fuel in Filter.atTop, Tells
      ((∃ name, nodes.Unreadable name) ∨ nodes.Seen ∧ ¬ nodes.HasNodePath nodeId) nodes.Seen
      (nodes.NodeFound nodeId) (versions.env.getNodeDiff fuel nodeId props nodes.old nodes.new
        versions.oldScene versions.newScene) := by
  by_cases hpresent : nodes.Present
  case neg =>
      have hnone : ¬ nodes.Seen := fun hseen => hpresent hseen.present
      refine .of_forall fun fuel => ?_
      rw [DiffEnv.getNodeDiff, (not_not.mp hpresent).1, (not_not.mp hpresent).2]
      refine .of_leftOut ?_ hnone
      rintro (⟨name, hunreadable⟩ | ⟨hseen, -⟩)
      · exact (clear_of_absent hpresent name).1 hunreadable
      · exact hnone hseen
  obtain ⟨scene, hscene⟩ := exists_pathScene hpresent
  filter_upwards [tellsProperties hprops, eventually_getNodePath scene nodeId] with fuel
    hproperties hpath
  rw [DiffEnv.getNodeDiff, hpresent.isNone_eq_false, if_neg Bool.false_ne_true]
  cases hchanged : versions.env.changedProperties fuel props nodes.old nodes.new versions.oldScene
      versions.newScene with
  | none => exact .of_stuck (.inl (hproperties.1.mp hchanged))
  | some changed =>
      have hfound := hproperties.2 changed hchanged
      have hreadable : ¬ ∃ name, nodes.Unreadable name := by
        rw [← hproperties.1, hchanged]
        nofun
      simp only [or_iff_right hreadable]
      by_cases hseen : nodes.Seen
      · rw [if_neg ((leftOut_iff hfound hpresent).not.mpr (not_not.mpr hseen)), hscene]
        by_cases hhas : scene.HasPath nodeId
        · obtain ⟨path, hdone⟩ := hpath hhas
          simp only [hdone]
          refine .of_entry (fun hstuck => hstuck.2 ⟨scene, hscene, hhas⟩) hseen ?_
          exact ⟨⟨rfl, ⟨scene, fuel, hscene, hdone⟩, rfl⟩, hfound⟩
        · have hnever (path : String) : scene.getNodePath fuel nodeId ≠ .done path := fun hdone =>
            hhas (GodotScene.exists_getNodePath_iff.mp ⟨fuel, path, hdone⟩)
          have hstuck : nodes.Seen ∧ ¬ nodes.HasNodePath nodeId := by
            refine ⟨hseen, ?_⟩
            rintro ⟨other, hother, hpath⟩
            obtain rfl := Option.some.inj (hscene.symm.trans hother)
            exact hhas hpath
          cases hrun : scene.getNodePath fuel nodeId with
          | done path => exact absurd hrun (hnever path)
          | fail message =>
              simp only [hrun]
              exact .of_stuck hstuck
          | panic =>
              simp only [hrun]
              exact .of_stuck hstuck
          | running =>
              simp only [hrun]
              exact .of_stuck hstuck
      · rw [if_pos ((leftOut_iff hfound hpresent).mpr hseen)]
        exact .of_leftOut (fun hstuck => hseen hstuck.1) hseen

end NodeVersions

/-! ## Sub-resources and main resources -/

namespace NodeVersions

variable {versions : SceneVersions} (nodes : NodeVersions versions SubResourceNode) (id : String)

/-- What is right about an entry of a sub-resource besides its properties. -/
structure SubResourceEntry (diff : SubResourceDiff) : Prop where
  subResourceId : diff.subResourceId = id
  changeType : diff.changeType = changeTypeOf nodes.old nodes.new

/-- The entry of a sub-resource lists exactly what differs. -/
def SubResourceListed (diff : SubResourceDiff) : Prop :=
  nodes.SubResourceEntry id diff ∧ nodes.PropertiesListed diff.changedProperties

def SubResourceFound (diff : SubResourceDiff) : Prop :=
  nodes.SubResourceEntry id diff ∧ nodes.PropertiesFound diff.changedProperties

variable {nodes id}

/-- **From some depth on, there is an entry for every sub-resource that one side has.** -/
theorem tellsSubResource {props : List String}
    (hprops : HashSet.Iterates (collectedProps nodes.old nodes.new) props) :
    ∀ᶠ fuel in Filter.atTop, Tells (∃ name, nodes.Unreadable name) nodes.Present
      (nodes.SubResourceFound id) (versions.env.getSubResourceDiff fuel id props nodes.old nodes.new
        versions.oldScene versions.newScene) := by
  by_cases hpresent : nodes.Present
  case neg =>
      refine .of_forall fun fuel => ?_
      rw [DiffEnv.getSubResourceDiff, (not_not.mp hpresent).1, (not_not.mp hpresent).2]
      refine .of_leftOut ?_ hpresent
      rintro ⟨name, hunreadable⟩
      exact (clear_of_absent hpresent name).1 hunreadable
  filter_upwards [tellsProperties hprops] with fuel hproperties
  rw [DiffEnv.getSubResourceDiff, hpresent.isNone_eq_false, if_neg Bool.false_ne_true]
  cases hchanged : versions.env.changedProperties fuel props nodes.old nodes.new versions.oldScene
      versions.newScene with
  | none => exact .of_stuck (hproperties.1.mp hchanged)
  | some changed =>
      have hreadable : ¬ ∃ name, nodes.Unreadable name := by
        rw [← hproperties.1, hchanged]
        nofun
      exact .of_entry hreadable hpresent ⟨⟨rfl, rfl⟩, hproperties.2 changed hchanged⟩

end NodeVersions

/-! ## The diffs -/

namespace SceneVersions

variable (versions : SceneVersions)

def nodesAt (id : NodeId) : NodeVersions versions GodotNode :=
  versions.parts fun scene => scene.nodes.lookup id

def subResourcesAt (id : String) : NodeVersions versions SubResourceNode :=
  versions.parts fun scene => scene.subResources.lookup id

def mainResources : NodeVersions versions SubResourceNode :=
  versions.parts fun scene => scene.mainResource

/-- A diff of scenes has exactly one entry for every changed node. -/
def ListsNodes (diff : SceneDiff) : Prop :=
  ∃ ids : List NodeId, ids.Nodup ∧ (∀ id, id ∈ ids ↔ (versions.nodesAt id).Changed) ∧
    List.Forall₂ (fun id entry => (versions.nodesAt id).NodeListed id entry) ids diff.changedNodes

/-- A diff of resources has exactly one entry for every changed sub-resource, and one for the main
resource if that is changed. -/
def ListsResources (diff : TextResourceDiff) : Prop :=
  (∃ ids : List String, ids.Nodup ∧ (∀ id, id ∈ ids ↔ (versions.subResourcesAt id).Changed) ∧
    List.Forall₂ (fun id entry => (versions.subResourcesAt id).SubResourceListed id entry) ids
      diff.changedSubResources) ∧
  (diff.changedMainResource.isSome ↔ versions.mainResources.Changed) ∧
  ∀ entry, diff.changedMainResource = some entry →
    versions.mainResources.SubResourceListed "" entry

/-- `get_scene_diff` returns, and lists exactly what changed. -/
def SceneDiffExact (path : String) : Prop :=
  ∃ bound, ∀ fuel ≥ bound, ∃ diff,
    versions.env.getSceneDiff fuel path versions.oldScene versions.newScene = some diff ∧
      versions.ListsNodes diff

/-- `get_text_resource_diff` returns, and lists exactly what changed. -/
def TextResourceDiffExact (path : String) : Prop :=
  ∃ bound, ∀ fuel ≥ bound, ∃ diff,
    versions.env.getTextResourceDiff fuel path versions.oldScene versions.newScene = some diff ∧
      versions.ListsResources diff

/-- The condition under which a diff of scenes is exact: all texts that it comes to can be read,
no difference of a shared property is hidden, and changed nodes have a path. -/
def NodesClear : Prop :=
  ∀ id, (versions.nodesAt id).Clear ∧
    ((versions.nodesAt id).Changed → (versions.nodesAt id).HasNodePath id)

/-- The condition under which a diff of resources is exact: all texts that it comes to can be
read, no difference of a shared property is hidden, and everything has changed. -/
def ResourcesClear : Prop :=
  (∀ id, (versions.subResourcesAt id).Clear ∧
    ((versions.subResourcesAt id).Present → (versions.subResourcesAt id).Changed)) ∧
  versions.mainResources.Clear ∧
    (versions.mainResources.Present → versions.mainResources.Changed)

/-! ## What the diffs list -/

variable {versions}

theorem mem_elim_keys_iff {κ : Type} {ν : Type} [DecidableEq κ] (mapOf : GodotScene → HashMap κ ν)
    {scene : Option GodotScene} {key : κ} :
    key ∈ scene.elim ∅ (fun scene => (mapOf scene).keys) ↔
      (scene.bind fun scene => (mapOf scene).lookup key) ≠ none := by
  cases scene with
  | none => simp
  | some scene =>
      rw [Option.elim_some, Option.bind_some, Finmap.mem_keys, ne_eq, Finmap.lookup_eq_none,
        not_not]

theorem mem_nodeIds_iff {id : NodeId} :
    id ∈ versions.env.nodeIds ↔ (versions.nodesAt id).Present := by
  rw [versions.nodeIds.mem_iff, collectedNodeIds, Finset.mem_union,
    mem_elim_keys_iff GodotScene.nodes, mem_elim_keys_iff GodotScene.nodes,
    NodeVersions.Present, not_and_or]
  rfl

theorem mem_subResourceIds_iff {id : String} :
    id ∈ versions.env.subResourceIds ↔ (versions.subResourcesAt id).Present := by
  rw [versions.subResourceIds.mem_iff, collectedSubResourceIds, Finset.mem_union,
    mem_elim_keys_iff fun scene => scene.subResources,
    mem_elim_keys_iff fun scene => scene.subResources, NodeVersions.Present, not_and_or]
  rfl

open Classical in
/-- **From some depth on, the diff of two scenes lists the nodes that differ visibly.** -/
theorem tellsScene (versions : SceneVersions) (path : String) :
    ∀ᶠ fuel in Filter.atTop,
      (versions.env.getSceneDiff fuel path versions.oldScene versions.newScene = none ↔
        ∃ id, (∃ name, (versions.nodesAt id).Unreadable name) ∨
          (versions.nodesAt id).Seen ∧ ¬ (versions.nodesAt id).HasNodePath id) ∧
      ∀ diff, versions.env.getSceneDiff fuel path versions.oldScene versions.newScene = some diff →
        List.Forall₂ (fun id entry => (versions.nodesAt id).NodeFound id entry)
          (versions.env.nodeIds.filter fun id => decide (versions.nodesAt id).Seen)
          diff.changedNodes := by
  have hall : ∀ᶠ fuel in Filter.atTop, ∀ id ∈ {id | id ∈ versions.env.nodeIds}, Tells
      ((∃ name, (versions.nodesAt id).Unreadable name) ∨
        (versions.nodesAt id).Seen ∧ ¬ (versions.nodesAt id).HasNodePath id)
      (versions.nodesAt id).Seen ((versions.nodesAt id).NodeFound id)
      (versions.env.getNodeDiff fuel id (versions.env.nodeProps id) (versions.nodesAt id).old
        (versions.nodesAt id).new versions.oldScene versions.newScene) :=
    (Filter.eventually_all_finite (List.finite_toSet _)).mpr fun id _ =>
      NodeVersions.tellsNode (versions.nodeProps id)
  filter_upwards [hall] with fuel htells
  obtain ⟨hnone, hsome⟩ := collectDiffs_tells htells
  refine ⟨?_, fun diff hdiff => ?_⟩
  · refine Iff.trans bind_some_eq_none_iff (hnone.trans ?_)
    constructor
    · rintro ⟨id, -, hstuck⟩
      exact ⟨id, hstuck⟩
    · rintro ⟨id, hstuck⟩
      refine ⟨id, mem_nodeIds_iff.mpr ?_, hstuck⟩
      rcases hstuck with ⟨name, hunreadable⟩ | ⟨hseen, -⟩
      · by_contra habsent
        exact (NodeVersions.clear_of_absent habsent name).1 hunreadable
      · exact hseen.present
  · rw [DiffEnv.getSceneDiff, Option.bind_eq_bind] at hdiff
    obtain ⟨diffs, hdiffs, hreturn⟩ := Option.bind_eq_some_iff.mp hdiff
    obtain rfl := Option.some.inj hreturn
    exact hsome diffs hdiffs

open Classical in
/-- **From some depth on, the diff of two resources lists everything that is there.** -/
theorem tellsTextResource (versions : SceneVersions) (path : String) :
    ∀ᶠ fuel in Filter.atTop,
      (versions.env.getTextResourceDiff fuel path versions.oldScene versions.newScene = none ↔
        (∃ id name, (versions.subResourcesAt id).Unreadable name) ∨
          ∃ name, versions.mainResources.Unreadable name) ∧
      ∀ diff, versions.env.getTextResourceDiff fuel path versions.oldScene versions.newScene =
          some diff →
        List.Forall₂ (fun id entry => (versions.subResourcesAt id).SubResourceFound id entry)
            (versions.env.subResourceIds.filter fun id =>
              decide (versions.subResourcesAt id).Present) diff.changedSubResources ∧
          (diff.changedMainResource.isSome ↔ versions.mainResources.Present) ∧
          ∀ entry, diff.changedMainResource = some entry →
            versions.mainResources.SubResourceFound "" entry := by
  have hall : ∀ᶠ fuel in Filter.atTop, ∀ id ∈ {id | id ∈ versions.env.subResourceIds}, Tells
      (∃ name, (versions.subResourcesAt id).Unreadable name) (versions.subResourcesAt id).Present
      ((versions.subResourcesAt id).SubResourceFound id)
      (versions.env.getSubResourceDiff fuel id (versions.env.subResourceProps id)
        (versions.subResourcesAt id).old (versions.subResourcesAt id).new versions.oldScene
        versions.newScene) :=
    (Filter.eventually_all_finite (List.finite_toSet _)).mpr fun id _ =>
      NodeVersions.tellsSubResource (versions.subResourceProps id)
  have hmain : ∀ᶠ fuel in Filter.atTop, Tells (∃ name, versions.mainResources.Unreadable name)
      versions.mainResources.Present (versions.mainResources.SubResourceFound "")
      (versions.env.getSubResourceDiff fuel "" versions.env.mainResourceProps
        versions.mainResources.old versions.mainResources.new versions.oldScene
        versions.newScene) :=
    NodeVersions.tellsSubResource versions.mainResourceProps
  filter_upwards [hall, hmain] with fuel htells hmain
  obtain ⟨hnone, hsome⟩ := collectDiffs_tells htells
  have hstuck : (∃ id ∈ versions.env.subResourceIds, ∃ name,
      (versions.subResourcesAt id).Unreadable name) ↔
        ∃ id name, (versions.subResourcesAt id).Unreadable name := by
    constructor
    · rintro ⟨id, -, hunreadable⟩
      exact ⟨id, hunreadable⟩
    · rintro ⟨id, name, hunreadable⟩
      refine ⟨id, mem_subResourceIds_iff.mpr ?_, name, hunreadable⟩
      by_contra habsent
      exact (NodeVersions.clear_of_absent habsent name).1 hunreadable
  rw [hstuck] at hnone
  refine ⟨bind_bind_eq_none_iff.trans (or_congr hnone hmain.stuck), fun diff hdiff => ?_⟩
  obtain ⟨diffs, hdiffs, hrest⟩ := Option.bind_eq_some_iff.mp hdiff
  obtain ⟨result, hresult, hreturn⟩ := Option.bind_eq_some_iff.mp hrest
  obtain rfl := Option.some.inj hreturn
  refine ⟨hsome diffs hdiffs, ?_, fun entry hentry => ?_⟩
  · rw [Option.isSome_map]
    cases result with
    | none => exact iff_of_false nofun (hmain.leftOut hresult)
    | some found => exact iff_of_true rfl (hmain.entry found hresult).1
  · obtain ⟨found, rfl, rfl⟩ := Option.map_eq_some_iff.mp hentry
    obtain ⟨-, hentry, hproperties⟩ := hmain.entry found hresult
    exact ⟨⟨hentry.subResourceId, hentry.changeType⟩, hproperties⟩

/-! ## When a diff is exact -/

section AsWritten

variable (hscenes : versions.ScenesAsWritten)
include hscenes

theorem subResourcesAt_asWritten (id : String) : (versions.subResourcesAt id).AsWritten := by
  constructor
  · intro node name property hnode hproperty
    obtain ⟨scene, hscene, hlookup⟩ := Option.bind_eq_some_iff.mp hnode
    obtain ⟨version, hversion, rfl⟩ := Option.map_eq_some_iff.mp hscene
    exact hscenes version (.inl hversion) id node name property hlookup hproperty
  · intro node name property hnode hproperty
    obtain ⟨scene, hscene, hlookup⟩ := Option.bind_eq_some_iff.mp hnode
    obtain ⟨version, hversion, rfl⟩ := Option.map_eq_some_iff.mp hscene
    exact hscenes version (.inr hversion) id node name property hlookup hproperty

open Classical in
/-- By the numbers of properties that the entries name: where some are missing from one entry, no
other entry has more. -/
theorem hidden_of_listsNodes (hnodes : ∀ id, (versions.nodesAt id).AsWritten)
    {diff : SceneDiff} (hlists : versions.ListsNodes diff)
    (hfound : List.Forall₂ (fun id entry => (versions.nodesAt id).NodeFound id entry)
      (versions.env.nodeIds.filter fun id => decide (versions.nodesAt id).Seen)
      diff.changedNodes) (id : NodeId) (name : String) :
    ¬ (versions.nodesAt id).Hidden name := by
  obtain ⟨ids, -, hids, hlisted⟩ := hlists
  let differing (id : NodeId) : Finset String :=
    (collectedProps (versions.nodesAt id).old (versions.nodesAt id).new).filter
      fun name => (versions.nodesAt id).Differs name
  let visible (id : NodeId) : Finset String :=
    (collectedProps (versions.nodesAt id).old (versions.nodesAt id).new).filter
      fun name => (versions.nodesAt id).Visible name
  have hsubset (id : NodeId) : visible id ⊆ differing id :=
    Finset.monotone_filter_right _ fun name _ hvisible =>
      (NodeVersions.differs_iff hscenes (hnodes id)).mpr hvisible.1
  have hwanted : List.Forall₂
      (fun id (entry : NodeDiff) => entry.changedProperties.keys.card = (differing id).card) ids
      diff.changedNodes :=
    hlisted.imp fun id entry hentry => congrArg Finset.card hentry.2.keys
  have hseen : List.Forall₂
      (fun id (entry : NodeDiff) => entry.changedProperties.keys.card = (visible id).card)
      (versions.env.nodeIds.filter fun id => decide (versions.nodesAt id).Seen)
      diff.changedNodes :=
    hfound.imp fun id entry hentry => congrArg Finset.card hentry.2.keys
  have hcards := eq_of_sizes (fun entry : NodeDiff => entry.changedProperties.keys.card) hwanted
    hseen (versions.nodeIds.nodup.filter _)
    (fun id hid => (hids id).mpr (NodeVersions.Seen.changed hscenes (hnodes id)
      (of_decide_eq_true (List.mem_filter.mp hid).2)))
    fun id => Finset.card_le_card (hsubset id)
  intro hhidden
  have hdiffers : (versions.nodesAt id).Differs name :=
    (NodeVersions.differs_iff hscenes (hnodes id)).mpr hhidden.differs
  have hchanged : (versions.nodesAt id).Changed := .inr (.inr ⟨name, hdiffers⟩)
  have hsame : visible id = differing id :=
    Finset.eq_of_subset_of_card_le (hsubset id) (hcards id ((hids id).mpr hchanged)).ge
  have hdiffering : name ∈ differing id :=
    Finset.mem_filter.mpr ⟨NodeVersions.mem_of_differsBy hdiffers, hdiffers⟩
  exact (Finset.mem_filter.mp (hsame ▸ hdiffering)).2.2 hhidden

/-- **A diff of scenes whose texts are read as what they write lists exactly what changed if and
only if no difference of a shared property is hidden, and changed nodes have a path.** -/
theorem sceneDiffExact_iff (hnodes : ∀ id, (versions.nodesAt id).AsWritten) (path : String) :
    versions.SceneDiffExact path ↔ versions.NodesClear := by
  classical
  obtain ⟨bound, hbound⟩ := Filter.eventually_atTop.mp (versions.tellsScene path)
  constructor
  · rintro ⟨other, hexact⟩ id
    obtain ⟨hnone, hsome⟩ := hbound (max bound other) (le_max_left _ _)
    obtain ⟨diff, hdiff, hlists⟩ := hexact (max bound other) (le_max_right _ _)
    have hreturns : ¬ ∃ id, (∃ name, (versions.nodesAt id).Unreadable name) ∨
        (versions.nodesAt id).Seen ∧ ¬ (versions.nodesAt id).HasNodePath id := by
      rw [← hnone, hdiff]
      nofun
    refine ⟨fun name => ⟨fun hunreadable => ?_, ?_⟩, fun hchanged => ?_⟩
    · exact hreturns ⟨id, .inl ⟨name, hunreadable⟩⟩
    · exact hidden_of_listsNodes hscenes hnodes hlists (hsome diff hdiff) id name
    · obtain ⟨ids, -, hids, hlisted⟩ := hlists
      obtain ⟨entry, -, hentry⟩ := exists_of_mem_left hlisted ((hids id).mpr hchanged)
      exact hentry.1.hasNodePath
  · intro hclear
    refine ⟨bound, fun fuel hfuel => ?_⟩
    obtain ⟨hnone, hsome⟩ := hbound fuel hfuel
    have hreturns : versions.env.getSceneDiff fuel path versions.oldScene versions.newScene ≠
        none := by
      rw [ne_eq, hnone]
      rintro ⟨id, ⟨name, hunreadable⟩ | ⟨hseen, hnever⟩⟩
      · exact ((hclear id).1 name).1 hunreadable
      · exact hnever ((hclear id).2 (hseen.changed hscenes (hnodes id)))
    obtain ⟨diff, hdiff⟩ := Option.ne_none_iff_exists'.mp hreturns
    refine ⟨diff, hdiff, _, versions.nodeIds.nodup.filter _, fun id => ?_,
      (hsome diff hdiff).imp fun id entry hfound => ?_⟩
    · rw [List.mem_filter, decide_eq_true_iff, (hclear id).1.seen_iff hscenes (hnodes id)]
      exact and_iff_right_of_imp fun hchanged => mem_nodeIds_iff.mpr hchanged.present
    · exact ⟨hfound.1, (hclear id).1.propertiesListed hscenes (hnodes id) hfound.2⟩

/-- An entry that names what differs visibly and what differs hides nothing. -/
theorem not_hidden_of_entry {nodes : NodeVersions versions SubResourceNode}
    (hnodes : nodes.AsWritten) {id : String} {entry : SubResourceDiff}
    (hlisted : nodes.SubResourceListed id entry)
    (hfound : nodes.SubResourceFound id entry) (name : String) : ¬ nodes.Hidden name := by
  intro hhidden
  have hmem := (hlisted.2 name).1.mpr
    ((NodeVersions.differs_iff hscenes hnodes).mpr hhidden.differs)
  exact ((hfound.2 name).1.mp hmem).2 hhidden

/-- **A diff of resources whose texts are read as what they write lists exactly what changed if and
only if no difference of a shared property is hidden, and everything that is there has changed.** -/
theorem textResourceDiffExact_iff (hmain : versions.mainResources.AsWritten) (path : String) :
    versions.TextResourceDiffExact path ↔ versions.ResourcesClear := by
  classical
  have hsubs := subResourcesAt_asWritten hscenes
  obtain ⟨bound, hbound⟩ := Filter.eventually_atTop.mp (versions.tellsTextResource path)
  constructor
  · rintro ⟨other, hexact⟩
    obtain ⟨hnone, hsome⟩ := hbound (max bound other) (le_max_left _ _)
    obtain ⟨diff, hdiff, ⟨ids, -, hids, hlisted⟩, hmainChanged, hmainListed⟩ :=
      hexact (max bound other) (le_max_right _ _)
    obtain ⟨hfound, hmainPresent, hmainFound⟩ := hsome diff hdiff
    have hreturns : ¬ ((∃ id name, (versions.subResourcesAt id).Unreadable name) ∨
        ∃ name, versions.mainResources.Unreadable name) := by
      rw [← hnone, hdiff]
      nofun
    -- Every entry says which sub-resource it is for.
    have hpresent (id : String) (hhere : (versions.subResourcesAt id).Present) : id ∈ ids := by
      have hmem : id ∈ versions.env.subResourceIds.filter fun id =>
          decide (versions.subResourcesAt id).Present :=
        List.mem_filter.mpr ⟨mem_subResourceIds_iff.mpr hhere, decide_eq_true hhere⟩
      obtain ⟨entry, hmem, hentry⟩ := exists_of_mem_left hfound hmem
      obtain ⟨other, hother, hsame⟩ := exists_of_mem_right hlisted hmem
      obtain rfl : other = id := hsame.1.subResourceId.symm.trans hentry.1.subResourceId
      exact hother
    refine ⟨fun id => ⟨fun name => ⟨fun hunreadable => ?_, fun hhidden => ?_⟩, fun hhere => ?_⟩,
      fun name => ⟨fun hunreadable => ?_, fun hhidden => ?_⟩, fun hhere => ?_⟩
    · exact hreturns (.inl ⟨id, name, hunreadable⟩)
    · obtain ⟨entry, hmem, hentry⟩ :=
        exists_of_mem_left hlisted ((hids id).mpr (hhidden.changed hscenes (hsubs id)))
      obtain ⟨other, -, hother⟩ := exists_of_mem_right hfound hmem
      obtain rfl : other = id := hother.1.subResourceId.symm.trans hentry.1.subResourceId
      exact not_hidden_of_entry hscenes (hsubs _) hentry hother name hhidden
    · exact (hids id).mp (hpresent id hhere)
    · exact hreturns (.inr ⟨name, hunreadable⟩)
    · have hchanged := hhidden.changed hscenes hmain
      obtain ⟨entry, hentry⟩ := Option.isSome_iff_exists.mp (hmainChanged.mpr hchanged)
      exact not_hidden_of_entry hscenes hmain (hmainListed entry hentry)
        (hmainFound entry hentry) name hhidden
    · exact hmainChanged.mp (hmainPresent.mpr hhere)
  · rintro ⟨hclear, hmainClear, hmainChanged⟩
    refine ⟨bound, fun fuel hfuel => ?_⟩
    obtain ⟨hnone, hsome⟩ := hbound fuel hfuel
    have hreturns : versions.env.getTextResourceDiff fuel path versions.oldScene
        versions.newScene ≠ none := by
      rw [ne_eq, hnone]
      rintro (⟨id, name, hunreadable⟩ | ⟨name, hunreadable⟩)
      · exact ((hclear id).1 name).1 hunreadable
      · exact (hmainClear name).1 hunreadable
    obtain ⟨diff, hdiff⟩ := Option.ne_none_iff_exists'.mp hreturns
    obtain ⟨hfound, hmainPresent, hmainFound⟩ := hsome diff hdiff
    refine ⟨diff, hdiff, ⟨_, versions.subResourceIds.nodup.filter _, fun id => ?_,
      hfound.imp fun id entry hentry => ?_⟩, ?_, fun entry hentry => ?_⟩
    · rw [List.mem_filter, decide_eq_true_iff, mem_subResourceIds_iff, and_self]
      exact ⟨(hclear id).2, NodeVersions.Changed.present⟩
    · exact ⟨hentry.1, (hclear id).1.propertiesListed hscenes (hsubs id) hentry.2⟩
    · exact hmainPresent.trans ⟨hmainChanged, NodeVersions.Changed.present⟩
    · obtain ⟨hright, hproperties⟩ := hmainFound entry hentry
      exact ⟨hright, hmainClear.propertiesListed hscenes hmain hproperties⟩

end AsWritten

/-! ## A version compared with itself -/

/-- Nothing differs from itself. -/
theorem not_changed_self (hself : versions.old = versions.new) {ν : Type} [PropertyGetter ν]
    (part : GodotScene → Option ν) : ¬ (versions.parts part).Changed := by
  have hnodes : (versions.parts part).old = (versions.parts part).new :=
    congrArg (fun version => SceneVersion.read version part) hself
  rintro (hone | htype | ⟨name, hdiffers⟩)
  · exact hone (by rw [hnodes])
  · exact htype (by rw [hnodes])
  · exact hdiffers (by rw [hself, hnodes])

/-- **The diff of a resource with itself is not exact if there is anything in it.** -/
theorem not_textResourceDiffExact_self (hself : versions.old = versions.new)
    (hscenes : versions.ScenesAsWritten) (hmain : versions.mainResources.AsWritten)
    (hpresent : versions.mainResources.Present ∨ ∃ id, (versions.subResourcesAt id).Present)
    (path : String) : ¬ versions.TextResourceDiffExact path := by
  rw [textResourceDiffExact_iff hscenes hmain]
  rintro ⟨hresources, -, hchanged⟩
  rcases hpresent with hhere | ⟨id, hhere⟩
  · exact not_changed_self hself _ (hchanged hhere)
  · exact not_changed_self hself _ ((hresources id).2 hhere)

end SceneVersions

/-- The text of a resource with a box in it. -/
def boxSections : List Section :=
  [⟨"gd_resource", [("type", "\"Resource\""), ("load_steps", "2"), ("format", "3"),
      ("uid", "\"uid://box\"")], []⟩,
    ⟨"sub_resource", [("type", "\"BoxShape3D\""), ("id", "\"box\"")],
      [("size", "Vector3(1, 2, 3)")]⟩]

theorem parsesTo_boxScene :
    ParsesTo ⟨fun _ => 7, fun _ => ""⟩ boxSections (boxScene sizeSet) := ⟨1, by rfl⟩

/-- What is compared of a box that may have another size. -/
def boxEnv (size : String) : DiffEnv where
  before := some "backstitch-branch+1"
  after := some "backstitch-branch+2"
  propOrders := fun _ => [⟨"size", ⟨size, 0⟩⟩]
  nodeIds := []
  subResourceIds := ["box"]
  nodeProps := fun _ => []
  subResourceProps := fun id => if id = "box" then ["size"] else []
  mainResourceProps := []

theorem lookup_boxScene_of_ne {properties : Properties} {id : String} (hid : id ≠ "box") :
    (boxScene properties).subResources.lookup id = none :=
  Finmap.lookup_eq_none.mpr fun hmem => hid ((Finmap.mem_singleton _ _ _).mp hmem)

/-- A resource with a box, compared with itself. -/
def boxTwice : SceneVersions where
  old := some ⟨boxScene sizeSet, acyclic_boxScene_sizeSet⟩
  new := some ⟨boxScene sizeSet, acyclic_boxScene_sizeSet⟩
  env := boxEnv "Vector3(1, 2, 3)"
  propOrders version hversion id node hnode := by
    obtain rfl := Option.some.inj hversion
    obtain ⟨-, rfl⟩ := lookup_boxScene hnode
    rfl
  nodeIds := rfl
  subResourceIds := rfl
  nodeProps id := rfl
  subResourceProps id := by
    by_cases hid : id = "box"
    · subst hid
      rfl
    · simp only [SceneVersion.read, Option.map_some, Option.bind_some, lookup_boxScene_of_ne hid,
        boxEnv, if_neg hid]
      rfl
  mainResourceProps := rfl

/-- A sub-resource with another size. -/
def sizeDoubled : Properties := Finmap.singleton "size" ⟨"Vector3(2, 4, 6)", 0⟩

theorem lookup_sizeDoubled {prop : String} {property : OrderedProperty}
    (hproperty : sizeDoubled.lookup prop = some property) :
    property = ⟨"Vector3(2, 4, 6)", 0⟩ := by
  have hprop : prop = "size" :=
    (Finmap.mem_singleton _ _ _).mp (Finmap.mem_of_lookup_eq_some hproperty)
  subst hprop
  rw [sizeDoubled, Finmap.lookup_singleton_eq] at hproperty
  exact (Option.some.inj hproperty).symm

theorem acyclic_boxScene_sizeDoubled : (boxScene sizeDoubled).Acyclic := by
  apply acyclic_of_not_refers
  intro inner outer
  apply not_refers_boxScene
  intro prop property hproperty
  have hread : getVarstrValue "Vector3(2, 4, 6)" = some (.variant "Vector3(2, 4, 6)") := by decide
  rw [lookup_sizeDoubled hproperty, hread]
  nofun

/-- A resource with a box whose size is changed. -/
def boxResized : SceneVersions where
  old := some ⟨boxScene sizeSet, acyclic_boxScene_sizeSet⟩
  new := some ⟨boxScene sizeDoubled, acyclic_boxScene_sizeDoubled⟩
  env := boxEnv "Vector3(2, 4, 6)"
  propOrders version hversion id node hnode := by
    obtain rfl := Option.some.inj hversion
    obtain ⟨-, rfl⟩ := lookup_boxScene hnode
    rfl
  nodeIds := rfl
  subResourceIds := rfl
  nodeProps id := rfl
  subResourceProps id := by
    by_cases hid : id = "box"
    · subst hid
      rfl
    · simp only [SceneVersion.read, Option.map_some, Option.bind_some, lookup_boxScene_of_ne hid,
        boxEnv, if_neg hid]
      rfl
  mainResourceProps := rfl

theorem scenesAsWritten_boxResized : boxResized.ScenesAsWritten := by
  rintro version (hversion | hversion)
  · exact Option.some.inj hversion ▸ readsAsWritten_boxScene_sizeSet
  · refine Option.some.inj hversion ▸ readsAsWritten_boxScene fun prop property hproperty => ?_
    rw [lookup_sizeDoubled hproperty]
    decide

/-- A size is no reference. -/
theorem not_hidden_boxResized (id name : String) :
    ¬ (boxResized.subResourcesAt id).Hidden name := by
  rintro ⟨_, _, _, _, oldNode, newNode, hold, -, oldValue, newValue, hvalues, hhidden⟩
  obtain ⟨-, rfl⟩ := lookup_boxScene hold
  obtain ⟨oldProp, newProp, holdProp, -, holdValue, -⟩ := hvalues
  have hread : getVarstrValue "Vector3(1, 2, 3)" = some (.variant "Vector3(1, 2, 3)") := by decide
  rw [lookup_sizeSet holdProp, hread] at holdValue
  obtain rfl := Option.some.inj holdValue
  cases hhidden

/-- The box has another size. -/
theorem changed_boxResized : (boxResized.subResourcesAt "box").Changed := by
  refine .inr (.inr ⟨"size", fun hsame => ?_⟩)
  have htexts : writtenValue "Vector3(1, 2, 3)" = .variant "Vector3(1, 2, 3)" ∧
      writtenValue "Vector3(2, 4, 6)" = .variant "Vector3(2, 4, 6)" := by decide
  have hexpanded : Expansion.text "Vector3(1, 2, 3)" = .text "Vector3(2, 4, 6)" := by
    have hexpansions := Option.some.inj hsame
    simpa only [GodotScene.expandText, GodotScene.expandWith, asWritten, Option.elim_some,
      htexts.1, htexts.2] using hexpansions
  exact absurd (Expansion.text.inj hexpanded) (by decide)

end Backstitch
