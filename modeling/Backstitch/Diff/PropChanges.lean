/-
# Changed properties

`did_prop_change` compares two values of properties in two scenes: references to sub-resources
are followed, and what they refer to is compared property by property.  The values mean their
expansions, in which every reference is replaced by what it refers to.

A loop over the properties of a sub-resource goes through them in an order of its own.
-/

import Backstitch.Diff.VariantText
import Backstitch.Library.Cycles
import Mathlib.Data.List.TakeWhile
import Mathlib.Order.Filter.AtTopBot.Basic
import Mathlib.Order.Filter.Finite

namespace Backstitch

/-! ## Comparing two values -/

/-- `did_ext_resource_reference_change`. -/
def didExtResourceReferenceChange (oldResource newResource : Option ExternalResourceNode) : Bool :=
  match oldResource, newResource with
  | none, none => false
  | none, some _ => true
  | some _, none => true
  | some old, some new =>
      old.resourceType ≠ new.resourceType || old.path ≠ new.path || old.uid ≠ new.uid

/-- The loop over the new properties.  It ends without a change at one that was added. -/
def didAnyPropChange (didPropChange : VariantStrValue → VariantStrValue → Option Bool)
    (oldProperties : Properties) : List (Entry String OrderedProperty) → Option Bool
  | [] => some false
  | ⟨path, newProp⟩ :: rest =>
      match oldProperties.lookup path with
      | none => some false
      | some oldProp =>
          match getVarstrValue oldProp.value, getVarstrValue newProp.value with
          | some oldValue, some newValue =>
              match didPropChange oldValue newValue with
              | some true => some true
              | some false => didAnyPropChange didPropChange oldProperties rest
              | none => none
          | _, _ => none

/-- `did_sub_resource_change`; `order` is the order of the new properties. -/
def didSubResourceChange (didPropChange : VariantStrValue → VariantStrValue → Option Bool)
    (order : List (Entry String OrderedProperty))
    (oldResource newResource : Option SubResourceNode) : Option Bool :=
  match oldResource, newResource with
  | none, none => some false
  | none, some _ => some true
  | some _, none => some true
  | some old, some new =>
      if old.resourceType ≠ new.resourceType then some true
      else if ¬ old.properties.keys ⊆ new.properties.keys then some true
      else didAnyPropChange didPropChange old.properties order

/-- The orders in which the properties of the new sub-resources come. -/
abbrev PropOrders := String → List (Entry String OrderedProperty)

/-- `did_prop_change`, with a bound on the depth.  Nothing is returned if a text cannot be
read, which is a panic. -/
def didPropChange (orders : PropOrders) : ℕ → Option VariantStrValue → Option VariantStrValue →
    Option GodotScene → Option GodotScene → Option Bool
  | 0, _, _, _, _ => none
  | fuel + 1, oldValue, newValue, oldScene, newScene =>
      match oldValue, newValue with
      | none, none => some false
      | none, some _ => some true
      | some _, none => some true
      | some oldValue, some newValue =>
          match oldScene, newScene with
          | none, _ => some true
          | some _, none => some true
          | some oldScene, some newScene =>
              match oldValue, newValue with
              | .subResourceId oldId, .subResourceId newId =>
                  didSubResourceChange
                    (fun old new => didPropChange orders fuel (some old) (some new)
                      (some oldScene) (some newScene))
                    (orders newId) (oldScene.subResources.lookup oldId)
                    (newScene.subResources.lookup newId)
              | .extResourceId oldId, .extResourceId newId =>
                  some (didExtResourceReferenceChange (oldScene.extResources.lookup oldId)
                    (newScene.extResources.lookup newId))
              | .resourcePath oldPath, .resourcePath newPath => some (oldPath ≠ newPath)
              | .variant oldText, .variant newText => some (oldText ≠ newText)
              | _, _ => some true

/-! ## Expansions -/

/-- A value with every reference replaced by what it refers to. -/
inductive Expansion
  | text (text : String)
  | resource (path : String)
  /-- The type, the path and the uid. -/
  | extResource (found : Option (String × String × Option String))
  | missingSubResource
  | subResource (resourceType : String) (properties : String → Option Expansion)
  /-- A property that is not there. -/
  | unset

inductive ValueKind
  | text
  | resource
  | extResource
  | subResource
  | unset
  deriving DecidableEq

def VariantStrValue.kind : VariantStrValue → ValueKind
  | .variant _ => .text
  | .resourcePath _ => .resource
  | .subResourceId _ => .subResource
  | .extResourceId _ => .extResource
  | .defaultValue _ _ => .unset

/-- What a text is read as is set. -/
theorem kind_ne_unset {text : String} {value : VariantStrValue}
    (hvalue : getVarstrValue text = some value) : value.kind ≠ .unset := by
  rw [getVarstrValue] at hvalue
  split at hvalue
  case isFalse =>
      rw [← Option.some.inj hvalue]
      intro hunset
      cases hunset
  case isTrue =>
      obtain ⟨id, -, hid⟩ := Option.bind_eq_some_iff.mp hvalue
      split at hid
      · rw [← Option.some.inj hid]
        intro hunset
        cases hunset
      split at hid
      · rw [← Option.some.inj hid]
        intro hunset
        cases hunset
      split at hid
      · split at hid
        · rw [← Option.some.inj hid]
          intro hunset
          cases hunset
        · cases hid
      · rw [← Option.some.inj hid]
        intro hunset
        cases hunset

def Expansion.kind : Expansion → ValueKind
  | .text _ => .text
  | .resource _ => .resource
  | .extResource _ => .extResource
  | .missingSubResource | .subResource _ _ => .subResource
  | .unset => .unset

/-- How the text of a property is understood, if it is. -/
abbrev TextReading := String → Option VariantStrValue

/-- Every text is taken for what it writes. -/
def asWritten : TextReading := fun text => some (writtenValue text)

namespace GodotScene

variable (scene : GodotScene)

/-- A property of one sub-resource refers to another one. -/
def RefersBy (reads : TextReading) (inner outer : String) : Prop :=
  ∃ node prop property, scene.subResources.lookup outer = some node ∧
    node.properties.lookup prop = some property ∧
    reads property.value = some (.subResourceId inner)

/-- No sub-resource refers to itself, not even by way of others. -/
def AcyclicBy (reads : TextReading) : Prop := ∀ id, ¬ Relation.TransGen (scene.RefersBy reads) id id

/-- A property of one sub-resource is read as a reference to another one. -/
abbrev Refers (inner outer : String) : Prop := scene.RefersBy getVarstrValue inner outer

/-- No sub-resource is read as referring to itself, not even by way of others. -/
abbrev Acyclic : Prop := scene.AcyclicBy getVarstrValue

/-- Every property of a sub-resource is read as what it writes. -/
def ReadsAsWritten : Prop :=
  ∀ id node prop property, scene.subResources.lookup id = some node →
    node.properties.lookup prop = some property → ReadAsWritten property.value

theorem AcyclicBy.wellFounded {scene : GodotScene} {reads : TextReading}
    (hacyclic : scene.AcyclicBy reads) : WellFounded (scene.RefersBy reads) := by
  refine wellFounded_of_acyclic scene.subResources.keys.finite_toSet ?_ hacyclic
  rintro inner outer ⟨node, prop, property, hnode, -, -⟩
  exact Finmap.mem_keys.mpr (Finmap.mem_of_lookup_eq_some hnode)

/-- The expansion of a value, with the expansions of the sub-resources it may refer to. -/
def expandWith (expandSub : String → Expansion) : VariantStrValue → Expansion
  | .variant text => .text text
  | .resourcePath path => .resource path
  | .subResourceId id => expandSub id
  | .extResourceId id =>
      .extResource ((scene.extResources.lookup id).map fun node =>
        (node.resourceType, node.path, node.uid))
  | .defaultValue _ _ => .unset

/-- The expansion of a text. -/
def expandText (reads : TextReading) (expandSub : String → Expansion) (text : String) : Expansion :=
  (reads text).elim .unset (scene.expandWith expandSub)

/-- The expansion of a sub-resource, with those of the sub-resources that it refers to. -/
def expandNode (reads : TextReading) (expandSub : String → Expansion) (id : String) : Expansion :=
  match scene.subResources.lookup id with
  | none => .missingSubResource
  | some node => .subResource node.resourceType fun prop =>
      (node.properties.lookup prop).map fun property =>
        scene.expandText reads expandSub property.value

open Classical in
/-- The expansion of a sub-resource, in a scene without cycles. -/
noncomputable def expandSub (reads : TextReading) : String → Expansion :=
  if hacyclic : scene.AcyclicBy reads then
    hacyclic.wellFounded.fix fun id expandInner =>
      scene.expandNode reads (fun inner =>
        if hrefers : scene.RefersBy reads inner id then expandInner inner hrefers else .unset) id
  else fun _ => .unset

/-- The expansion of a value in a scene. -/
noncomputable def expand (reads : TextReading) (value : VariantStrValue) : Expansion :=
  scene.expandWith (scene.expandSub reads) value

/-- The expansion of a property, if it is there. -/
noncomputable def expandedProp (reads : TextReading) (properties : Properties) (name : String) :
    Option Expansion :=
  (properties.lookup name).map fun property =>
    scene.expandText reads (scene.expandSub reads) property.value

variable {scene} {reads : TextReading}

/-- Only what a text refers to matters for its expansion. -/
theorem expandText_congr {first second : String → Expansion} {text : String}
    (hsame : ∀ inner, reads text = some (.subResourceId inner) → first inner = second inner) :
    scene.expandText reads first text = scene.expandText reads second text := by
  rw [expandText, expandText]
  cases hvalue : reads text with
  | none => rfl
  | some value =>
      cases value with
      | variant text => rfl
      | resourcePath path => rfl
      | subResourceId inner => exact hsame inner hvalue
      | extResourceId id => rfl
      | defaultValue kind prop => rfl

open Classical in
/-- **A sub-resource expands to its type and the expansions of its properties.** -/
theorem expandSub_eq (hacyclic : scene.AcyclicBy reads) (id : String) :
    scene.expandSub reads id = scene.expandNode reads (scene.expandSub reads) id := by
  have hstep : scene.expandSub reads id = scene.expandNode reads (fun inner =>
      if scene.RefersBy reads inner id then scene.expandSub reads inner else .unset) id := by
    simp only [expandSub, dif_pos hacyclic]
    exact WellFounded.fix_eq _ _ _
  rw [hstep, expandNode, expandNode]
  cases hnode : scene.subResources.lookup id with
  | none => rfl
  | some node =>
      refine congrArg (Expansion.subResource node.resourceType) (funext fun prop => ?_)
      cases hprop : node.properties.lookup prop with
      | none => rfl
      | some property =>
          refine congrArg some (expandText_congr fun inner hvalue => ?_)
          exact if_pos ⟨node, prop, property, hnode, hprop, hvalue⟩

theorem expand_subResource (hacyclic : scene.AcyclicBy reads) (id : String) :
    scene.expand reads (.subResourceId id) = scene.expandNode reads (scene.expandSub reads) id :=
  expandSub_eq hacyclic id

/-! ### What is read as it is written -/

/-- Where texts are read as what they write, the references are those that are written. -/
theorem ReadsAsWritten.refersBy_eq (hread : scene.ReadsAsWritten) :
    scene.RefersBy asWritten = scene.RefersBy getVarstrValue := by
  funext inner outer
  apply propext
  constructor
  · rintro ⟨node, prop, property, hnode, hprop, hvalue⟩
    exact ⟨node, prop, property, hnode, hprop, (hread outer node prop property hnode hprop).trans
      hvalue⟩
  · rintro ⟨node, prop, property, hnode, hprop, hvalue⟩
    exact ⟨node, prop, property, hnode, hprop,
      (hread outer node prop property hnode hprop).symm.trans hvalue⟩

theorem ReadsAsWritten.acyclic_iff (hread : scene.ReadsAsWritten) :
    scene.AcyclicBy asWritten ↔ scene.Acyclic := by
  unfold Acyclic AcyclicBy
  rw [hread.refersBy_eq]

/-- **There the expansions are those that are written.** -/
theorem ReadsAsWritten.expandSub_eq (hread : scene.ReadsAsWritten) (hacyclic : scene.Acyclic) :
    scene.expandSub asWritten = scene.expandSub getVarstrValue := by
  funext id
  induction id using hacyclic.wellFounded.induction with
  | _ id ih =>
      rw [GodotScene.expandSub_eq (hread.acyclic_iff.mpr hacyclic),
        GodotScene.expandSub_eq hacyclic, expandNode, expandNode]
      cases hnode : scene.subResources.lookup id with
      | none => rfl
      | some node =>
          refine congrArg (Expansion.subResource node.resourceType) (funext fun prop => ?_)
          cases hprop : node.properties.lookup prop with
          | none => rfl
          | some property =>
              have hvalue : getVarstrValue property.value = some (writtenValue property.value) :=
                hread id node prop property hnode hprop
              have hinner : scene.expandText getVarstrValue (scene.expandSub asWritten)
                  property.value = scene.expandText getVarstrValue
                    (scene.expandSub getVarstrValue) property.value :=
                expandText_congr fun inner hrefers =>
                  ih inner ⟨node, prop, property, hnode, hprop, hrefers⟩
              rw [Option.map_some, Option.map_some, ← hinner, expandText, expandText, hvalue]
              rfl

theorem ReadsAsWritten.expandText_eq (hread : scene.ReadsAsWritten) (hacyclic : scene.Acyclic)
    (text : String) :
    scene.expandText asWritten (scene.expandSub asWritten) text =
      scene.expand getVarstrValue (writtenValue text) := by
  rw [hread.expandSub_eq hacyclic]
  rfl

/-- An expansion is of the kind of its value. -/
theorem kind_expand (hacyclic : scene.AcyclicBy reads) (value : VariantStrValue) :
    (scene.expand reads value).kind = value.kind := by
  cases value with
  | variant text => rfl
  | resourcePath path => rfl
  | extResourceId id => rfl
  | defaultValue kind prop => rfl
  | subResourceId id =>
      rw [expand_subResource hacyclic, expandNode]
      cases scene.subResources.lookup id with
      | none => rfl
      | some node => rfl

end GodotScene

/-! ## Two scenes -/

/-- Two scenes that can be compared, with the orders of the new properties. -/
structure ScenePair where
  oldScene : GodotScene
  newScene : GodotScene
  oldAcyclic : oldScene.Acyclic
  newAcyclic : newScene.Acyclic
  orders : PropOrders
  iterates : ∀ id node, newScene.subResources.lookup id = some node →
    node.properties.Iterates (orders id)

/-- The values of a property that both sides have. -/
def ValuesAt (oldProperties newProperties : Properties) (name : String)
    (oldValue newValue : VariantStrValue) : Prop :=
  ∃ oldProp newProp, oldProperties.lookup name = some oldProp ∧
    newProperties.lookup name = some newProp ∧
    getVarstrValue oldProp.value = some oldValue ∧ getVarstrValue newProp.value = some newValue

/-- The names that a loop comes to before the first one that was added. -/
def namesBeforeAdded (oldProperties : Properties)
    (order : List (Entry String OrderedProperty)) : List String :=
  (order.map Sigma.fst).takeWhile fun name => decide (name ∈ oldProperties)

section Properties

variable {oldProperties newProperties : Properties} {name : String}
  {order : List (Entry String OrderedProperty)}

theorem ValuesAt.unique {oldValue newValue otherOld otherNew : VariantStrValue}
    (hvalues : ValuesAt oldProperties newProperties name oldValue newValue)
    (hother : ValuesAt oldProperties newProperties name otherOld otherNew) :
    otherOld = oldValue ∧ otherNew = newValue := by
  obtain ⟨oldProp, newProp, holdProp, hnewProp, holdValue, hnewValue⟩ := hvalues
  obtain ⟨sameOld, sameNew, hsameOld, hsameNew, hotherOld, hotherNew⟩ := hother
  obtain rfl := Option.some.inj (hsameOld.symm.trans holdProp)
  obtain rfl := Option.some.inj (hsameNew.symm.trans hnewProp)
  exact ⟨Option.some.inj (hotherOld.symm.trans holdValue),
    Option.some.inj (hotherNew.symm.trans hnewValue)⟩

/-- The names before the first added one are shared. -/
theorem mem_of_mem_namesBeforeAdded (hiterates : newProperties.Iterates order)
    (hname : name ∈ namesBeforeAdded oldProperties order) :
    name ∈ oldProperties ∧ name ∈ newProperties := by
  have hshared := List.mem_takeWhile_imp hname
  refine ⟨of_decide_eq_true hshared, ?_⟩
  exact hiterates.mem_keys_iff.mp ((List.takeWhile_sublist _).subset hname)

/-- If nothing was added, all names come before the first added one. -/
theorem mem_namesBeforeAdded (hiterates : newProperties.Iterates order)
    (hnone : ∀ name ∈ newProperties, name ∈ oldProperties) (hname : name ∈ newProperties) :
    name ∈ namesBeforeAdded oldProperties order := by
  rw [namesBeforeAdded, List.takeWhile_eq_self_iff.mpr]
  · exact hiterates.mem_keys_iff.mpr hname
  · intro other hother
    exact decide_eq_true (hnone other (hiterates.mem_keys_iff.mp hother))

theorem namesBeforeAdded_cons_of_mem {entry : Entry String OrderedProperty}
    (hmem : entry.1 ∈ oldProperties) (order : List (Entry String OrderedProperty)) :
    namesBeforeAdded oldProperties (entry :: order) =
      entry.1 :: namesBeforeAdded oldProperties order :=
  List.takeWhile_cons_of_pos (decide_eq_true hmem)

theorem namesBeforeAdded_cons_of_not_mem {entry : Entry String OrderedProperty}
    (hmem : entry.1 ∉ oldProperties) (order : List (Entry String OrderedProperty)) :
    namesBeforeAdded oldProperties (entry :: order) = [] :=
  List.takeWhile_cons_of_neg (by simpa using hmem)

end Properties

namespace ScenePair

variable (pair : ScenePair)

/-- Two values have the same expansion, as far as texts are read. -/
def Same (oldValue newValue : VariantStrValue) : Prop :=
  pair.oldScene.expand getVarstrValue oldValue = pair.newScene.expand getVarstrValue newValue

/-- A property has the same expansion on both sides, or is on neither. -/
def SameProp (oldProperties newProperties : Properties) (name : String) : Prop :=
  pair.oldScene.expandedProp getVarstrValue oldProperties name =
    pair.newScene.expandedProp getVarstrValue newProperties name

/-- `did_prop_change` of two values. -/
def didChange (fuel : ℕ) (oldValue newValue : VariantStrValue) : Option Bool :=
  didPropChange pair.orders fuel (some oldValue) (some newValue) (some pair.oldScene)
    (some pair.newScene)

/-- Two texts have the same expansion. -/
def SameTexts (oldText newText : String) : Prop :=
  pair.oldScene.expandText asWritten (pair.oldScene.expandSub asWritten) oldText =
    pair.newScene.expandText asWritten (pair.newScene.expandSub asWritten) newText

/-- `did_prop_change` returns for the values of two texts, and says whether the expansions of the
texts differ. -/
def Exact (oldText newText : String) : Prop :=
  ∃ oldValue newValue, getVarstrValue oldText = some oldValue ∧
    getVarstrValue newText = some newValue ∧
    ∃ bound, ∀ fuel ≥ bound, ∃ changed, pair.didChange fuel oldValue newValue = some changed ∧
      (changed = true ↔ ¬ pair.SameTexts oldText newText)

/-- All differences of two sub-resources are hidden behind properties that were added: nothing
else is the matter with the sub-resources, and the properties that come before the first added
one are the same, or differ in hidden ways themselves. -/
inductive Hidden : VariantStrValue → VariantStrValue → Prop
  | behind {oldId newId : String} {oldNode newNode : SubResourceNode}
      (hold : pair.oldScene.subResources.lookup oldId = some oldNode)
      (hnew : pair.newScene.subResources.lookup newId = some newNode)
      (htype : oldNode.resourceType = newNode.resourceType)
      (hkept : oldNode.properties.keys ⊆ newNode.properties.keys)
      (masked : Set String)
      (hsame : ∀ name ∈ namesBeforeAdded oldNode.properties (pair.orders newId), name ∉ masked →
        ∀ oldValue newValue,
          ValuesAt oldNode.properties newNode.properties name oldValue newValue →
            pair.Same oldValue newValue)
      (hmasked : ∀ name ∈ masked, ∀ oldValue newValue,
        ValuesAt oldNode.properties newNode.properties name oldValue newValue →
          Hidden oldValue newValue)
      (hsome : (∃ name ∈ newNode.properties, name ∉ oldNode.properties) ∨
        ∃ name ∈ masked, ∃ oldValue newValue,
          ValuesAt oldNode.properties newNode.properties name oldValue newValue) :
      Hidden (.subResourceId oldId) (.subResourceId newId)

/-- Two values differ, and not only in a hidden way. -/
def Visible (oldValue newValue : VariantStrValue) : Prop :=
  ¬ pair.Same oldValue newValue ∧ ¬ pair.Hidden oldValue newValue

/-- The comparison comes to a text that cannot be read, and to no visible difference before. -/
inductive Broken : VariantStrValue → VariantStrValue → Prop
  | within {oldId newId : String} {oldNode newNode : SubResourceNode}
      (hold : pair.oldScene.subResources.lookup oldId = some oldNode)
      (hnew : pair.newScene.subResources.lookup newId = some newNode)
      (htype : oldNode.resourceType = newNode.resourceType)
      (hkept : oldNode.properties.keys ⊆ newNode.properties.keys)
      (before : List String) (name : String) (after : List String)
      (hnames : namesBeforeAdded oldNode.properties (pair.orders newId) = before ++ name :: after)
      (hquiet : ∀ other ∈ before, ∀ oldValue newValue,
        ValuesAt oldNode.properties newNode.properties other oldValue newValue →
          ¬ pair.Visible oldValue newValue)
      (hbroken : ∀ oldValue newValue,
        ValuesAt oldNode.properties newNode.properties name oldValue newValue →
          Broken oldValue newValue) :
      Broken (.subResourceId oldId) (.subResourceId newId)

variable {pair} {oldId newId : String} {oldNode newNode : SubResourceNode}
  {oldProperties newProperties : Properties} {name : String}
  {oldValue newValue : VariantStrValue}

/-- Values of different kinds are not the same. -/
theorem not_same_of_kind (hkind : oldValue.kind ≠ newValue.kind) :
    ¬ pair.Same oldValue newValue := by
  intro hsame
  have hkinds := congrArg Expansion.kind hsame
  rw [GodotScene.kind_expand pair.oldAcyclic, GodotScene.kind_expand pair.newAcyclic] at hkinds
  exact hkind hkinds

/-- Two sub-resources are the same if they have the same type and the same properties. -/
theorem same_subResource_iff (hold : pair.oldScene.subResources.lookup oldId = some oldNode)
    (hnew : pair.newScene.subResources.lookup newId = some newNode) :
    pair.Same (.subResourceId oldId) (.subResourceId newId) ↔
      oldNode.resourceType = newNode.resourceType ∧
        ∀ name, pair.SameProp oldNode.properties newNode.properties name := by
  rw [Same, GodotScene.expand_subResource pair.oldAcyclic,
    GodotScene.expand_subResource pair.newAcyclic, GodotScene.expandNode, GodotScene.expandNode,
    hold, hnew]
  simp only [Expansion.subResource.injEq, funext_iff]
  rfl

theorem sameProp_iff (hvalues : ValuesAt oldProperties newProperties name oldValue newValue) :
    pair.SameProp oldProperties newProperties name ↔ pair.Same oldValue newValue := by
  obtain ⟨oldProp, newProp, holdProp, hnewProp, holdValue, hnewValue⟩ := hvalues
  rw [SameProp, GodotScene.expandedProp, GodotScene.expandedProp, holdProp, hnewProp,
    Option.map_some, Option.map_some, GodotScene.expandText, GodotScene.expandText, holdValue,
    hnewValue]
  exact Option.some_inj

/-- A property that only one side has is not the same. -/
theorem not_sameProp (hname : ¬ (name ∈ oldProperties ↔ name ∈ newProperties)) :
    ¬ pair.SameProp oldProperties newProperties name := by
  intro hsame
  have hfound := congrArg Option.isSome hsame
  rw [GodotScene.expandedProp, GodotScene.expandedProp, Option.isSome_map, Option.isSome_map,
    Bool.eq_iff_iff, Finmap.lookup_isSome, Finmap.lookup_isSome] at hfound
  exact hname hfound

theorem sameProp_of_not_mem (hold : name ∉ oldProperties) (hnew : name ∉ newProperties) :
    pair.SameProp oldProperties newProperties name := by
  rw [SameProp, GodotScene.expandedProp, GodotScene.expandedProp, Finmap.lookup_eq_none.mpr hold,
    Finmap.lookup_eq_none.mpr hnew]
  rfl

theorem not_same_of_sameProp (hold : pair.oldScene.subResources.lookup oldId = some oldNode)
    (hnew : pair.newScene.subResources.lookup newId = some newNode)
    (hdiffer : ¬ pair.SameProp oldNode.properties newNode.properties name) :
    ¬ pair.Same (.subResourceId oldId) (.subResourceId newId) :=
  fun hsame => hdiffer (((same_subResource_iff hold hnew).mp hsame).2 name)

/-- What is hidden differs. -/
theorem Hidden.not_same (hhidden : pair.Hidden oldValue newValue) :
    ¬ pair.Same oldValue newValue := by
  induction hhidden with
  | behind hold hnew htype hkept masked hsame hmasked hsome ih =>
      rcases hsome with ⟨name, hadded, habsent⟩ | ⟨name, hmask, oldValue, newValue, hvalues⟩
      · apply not_same_of_sameProp hold hnew
        exact not_sameProp fun hshared => habsent (hshared.mpr hadded)
      · apply not_same_of_sameProp hold hnew
        exact (sameProp_iff hvalues).not.mpr (ih name hmask oldValue newValue hvalues)

/-- Where differences are hidden, nothing else is to be seen. -/
theorem Hidden.nothingElse (hhidden : pair.Hidden (.subResourceId oldId) (.subResourceId newId))
    (hold : pair.oldScene.subResources.lookup oldId = some oldNode)
    (hnew : pair.newScene.subResources.lookup newId = some newNode) :
    oldNode.resourceType = newNode.resourceType ∧
    oldNode.properties.keys ⊆ newNode.properties.keys ∧
    ∀ name ∈ namesBeforeAdded oldNode.properties (pair.orders newId), ∀ oldValue newValue,
      ValuesAt oldNode.properties newNode.properties name oldValue newValue →
        ¬ pair.Visible oldValue newValue := by
  cases hhidden with
  | behind hotherOld hotherNew htype hkept masked hsame hmasked _ =>
      obtain rfl := Option.some.inj (hold.symm.trans hotherOld)
      obtain rfl := Option.some.inj (hnew.symm.trans hotherNew)
      refine ⟨htype, hkept, fun name hname oldValue newValue hvalues hvisible => ?_⟩
      by_cases hmask : name ∈ masked
      · exact hvisible.2 (hmasked name hmask oldValue newValue hvalues)
      · exact hvisible.1 (hsame name hname hmask oldValue newValue hvalues)

/-! ## Visible differences of sub-resources -/

section SubResources

variable (hold : pair.oldScene.subResources.lookup oldId = some oldNode)
  (hnew : pair.newScene.subResources.lookup newId = some newNode)
include hold hnew

theorem visible_of_type (htype : oldNode.resourceType ≠ newNode.resourceType) :
    pair.Visible (.subResourceId oldId) (.subResourceId newId) :=
  ⟨fun hsame => htype ((same_subResource_iff hold hnew).mp hsame).1,
    fun hhidden => htype (hhidden.nothingElse hold hnew).1⟩

theorem visible_of_removed (hremoved : ¬ oldNode.properties.keys ⊆ newNode.properties.keys) :
    pair.Visible (.subResourceId oldId) (.subResourceId newId) := by
  refine ⟨fun hsame => hremoved fun name hname => ?_,
    fun hhidden => hremoved (hhidden.nothingElse hold hnew).2.1⟩
  by_contra habsent
  have hdiffer : ¬ pair.SameProp oldNode.properties newNode.properties name := by
    apply not_sameProp
    intro hshared
    exact habsent (Finmap.mem_keys.mpr (hshared.mp (Finmap.mem_keys.mp hname)))
  exact not_same_of_sameProp hold hnew hdiffer hsame

theorem visible_of_visible
    (hname : name ∈ namesBeforeAdded oldNode.properties (pair.orders newId))
    (hvalues : ValuesAt oldNode.properties newNode.properties name oldValue newValue)
    (hvisible : pair.Visible oldValue newValue) :
    pair.Visible (.subResourceId oldId) (.subResourceId newId) :=
  ⟨not_same_of_sameProp hold hnew ((sameProp_iff hvalues).not.mpr hvisible.1),
    fun hhidden =>
      (hhidden.nothingElse hold hnew).2.2 name hname oldValue newValue hvalues hvisible⟩

/-- **Where no type changes, no property is removed and no difference is visible before the first
added property, all differences are hidden.** -/
theorem not_visible (htype : oldNode.resourceType = newNode.resourceType)
    (hkept : oldNode.properties.keys ⊆ newNode.properties.keys)
    (hbefore : ∀ name ∈ namesBeforeAdded oldNode.properties (pair.orders newId),
      ∃ oldValue newValue, ValuesAt oldNode.properties newNode.properties name oldValue newValue ∧
        ¬ pair.Visible oldValue newValue) :
    ¬ pair.Visible (.subResourceId oldId) (.subResourceId newId) := by
  rintro ⟨hdiffer, hseen⟩
  have hquiet {name : String}
      (hname : name ∈ namesBeforeAdded oldNode.properties (pair.orders newId))
      {oldValue newValue : VariantStrValue}
      (hvalues : ValuesAt oldNode.properties newNode.properties name oldValue newValue)
      (hne : ¬ pair.Same oldValue newValue) : pair.Hidden oldValue newValue := by
    obtain ⟨otherOld, otherNew, hother, hinvisible⟩ := hbefore name hname
    obtain ⟨rfl, rfl⟩ := hother.unique hvalues
    by_contra hhidden
    exact hinvisible ⟨hne, hhidden⟩
  refine hseen (.behind hold hnew htype hkept
    {name | ∃ oldValue newValue,
      ValuesAt oldNode.properties newNode.properties name oldValue newValue ∧
        pair.Hidden oldValue newValue} ?_ ?_ ?_)
  · intro name hname hunmasked oldValue newValue hvalues
    by_contra hne
    exact hunmasked ⟨oldValue, newValue, hvalues, hquiet hname hvalues hne⟩
  · rintro name ⟨oldValue, newValue, hvalues, hhidden⟩ otherOld otherNew hother
    obtain ⟨rfl, rfl⟩ := hvalues.unique hother
    exact hhidden
  · by_contra hnothing
    rw [not_or] at hnothing
    have hshared : ∀ name ∈ newNode.properties, name ∈ oldNode.properties := by
      intro name hname
      by_contra habsent
      exact hnothing.1 ⟨name, hname, habsent⟩
    refine hdiffer ((same_subResource_iff hold hnew).mpr ⟨htype, fun name => ?_⟩)
    by_cases hname : name ∈ newNode.properties
    · have hearly := mem_namesBeforeAdded (pair.iterates newId newNode hnew) hshared hname
      obtain ⟨oldValue, newValue, hvalues, -⟩ := hbefore name hearly
      rw [sameProp_iff hvalues]
      by_contra hne
      have hhidden := hquiet hearly hvalues hne
      exact hnothing.2 ⟨name, ⟨oldValue, newValue, hvalues, hhidden⟩, oldValue, newValue, hvalues⟩
    · refine sameProp_of_not_mem (fun hmem => hname ?_) hname
      exact Finmap.mem_keys.mp (hkept (Finmap.mem_keys.mpr hmem))

end SubResources

/-! ## What a comparison returns -/

/-- What a comparison says of two values: nothing if it is broken, and otherwise whether they
differ visibly. -/
structure Says (pair : ScenePair) (oldValue newValue : VariantStrValue) (result : Option Bool) :
    Prop where
  broken : result = none ↔ pair.Broken oldValue newValue
  visible : result = some true → pair.Visible oldValue newValue
  notVisible : result = some false → ¬ pair.Visible oldValue newValue

/-- A loop comes to a comparison that is broken. -/
def LoopBroken (pair : ScenePair) (oldProperties newProperties : Properties)
    (names : List String) : Prop :=
  ∃ before name after, names = before ++ name :: after ∧
    (∀ other ∈ before, ∀ oldValue newValue,
      ValuesAt oldProperties newProperties other oldValue newValue →
        ¬ pair.Visible oldValue newValue) ∧
    ∀ oldValue newValue, ValuesAt oldProperties newProperties name oldValue newValue →
      pair.Broken oldValue newValue

/-- What a loop over the new properties says. -/
structure LoopSays (pair : ScenePair) (oldProperties newProperties : Properties)
    (names : List String) (result : Option Bool) : Prop where
  broken : result = none ↔ pair.LoopBroken oldProperties newProperties names
  visible : result = some true → ∃ name ∈ names, ∃ oldValue newValue,
    ValuesAt oldProperties newProperties name oldValue newValue ∧ pair.Visible oldValue newValue
  notVisible : result = some false → ∀ name ∈ names, ∃ oldValue newValue,
    ValuesAt oldProperties newProperties name oldValue newValue ∧ ¬ pair.Visible oldValue newValue

section Loop

variable {names : List String}

/-- A loop over nothing finds nothing. -/
theorem LoopSays.nil : pair.LoopSays oldProperties newProperties [] (some false) := by
  refine ⟨iff_of_false nofun ?_, nofun, fun _ name hname => nomatch hname⟩
  rintro ⟨before, name, after, hnames, -, -⟩
  exact absurd hnames.symm (List.append_ne_nil_of_right_ne_nil _ (List.cons_ne_nil _ _))

/-- The first comparison is broken. -/
theorem LoopSays.of_broken (hbroken : ∀ oldValue newValue,
    ValuesAt oldProperties newProperties name oldValue newValue →
      pair.Broken oldValue newValue) :
    pair.LoopSays oldProperties newProperties (name :: names) none :=
  ⟨iff_of_true rfl ⟨[], name, names, rfl, fun _ hother => (nomatch hother), hbroken⟩, nofun, nofun⟩

variable (hvalues : ValuesAt oldProperties newProperties name oldValue newValue)
  (hwhole : ¬ pair.Broken oldValue newValue)
include hvalues hwhole

/-- The first property differs. -/
theorem LoopSays.of_visible (hvisible : pair.Visible oldValue newValue) :
    pair.LoopSays oldProperties newProperties (name :: names) (some true) := by
  refine ⟨iff_of_false nofun ?_, fun _ => ?_, nofun⟩
  · rintro ⟨before, stuck, after, hnames, hquiet, hbroken⟩
    cases before with
    | nil =>
        obtain ⟨rfl, rfl⟩ := List.cons.inj hnames
        exact hwhole (hbroken oldValue newValue hvalues)
    | cons first before =>
        obtain ⟨rfl, rfl⟩ := List.cons.inj hnames
        exact hquiet name List.mem_cons_self oldValue newValue hvalues hvisible
  · exact ⟨name, List.mem_cons_self, oldValue, newValue, hvalues, hvisible⟩

theorem loopBroken_cons (hinvisible : ¬ pair.Visible oldValue newValue) :
    pair.LoopBroken oldProperties newProperties (name :: names) ↔
      pair.LoopBroken oldProperties newProperties names := by
  constructor
  · rintro ⟨before, stuck, after, hnames, hquiet, hbroken⟩
    cases before with
    | nil =>
        obtain ⟨rfl, rfl⟩ := List.cons.inj hnames
        exact absurd (hbroken oldValue newValue hvalues) hwhole
    | cons first before =>
        obtain ⟨rfl, rfl⟩ := List.cons.inj hnames
        exact ⟨before, stuck, after, rfl,
          fun other hother => hquiet other (List.mem_cons_of_mem _ hother), hbroken⟩
  · rintro ⟨before, stuck, after, rfl, hquiet, hbroken⟩
    refine ⟨name :: before, stuck, after, rfl, fun other hother => ?_, hbroken⟩
    rcases List.mem_cons.mp hother with rfl | hother
    · intro otherOld otherNew hsame
      obtain ⟨rfl, rfl⟩ := hvalues.unique hsame
      exact hinvisible
    · exact hquiet other hother

/-- The first property does not differ, and the loop goes on. -/
theorem LoopSays.of_quiet (hinvisible : ¬ pair.Visible oldValue newValue) {result : Option Bool}
    (hrest : pair.LoopSays oldProperties newProperties names result) :
    pair.LoopSays oldProperties newProperties (name :: names) result := by
  refine ⟨?_, fun hfound => ?_, fun hnone other hother => ?_⟩
  · rw [loopBroken_cons hvalues hwhole hinvisible]
    exact hrest.broken
  · obtain ⟨other, hother, hchange⟩ := hrest.visible hfound
    exact ⟨other, List.mem_cons_of_mem _ hother, hchange⟩
  · rcases List.mem_cons.mp hother with rfl | hother
    · exact ⟨oldValue, newValue, hvalues, hinvisible⟩
    · exact hrest.notVisible hnone other hother

end Loop

/-- **The loop finds what changed before the first added property.** -/
theorem loopSays {fuel : ℕ} {order : List (Entry String OrderedProperty)}
    (horder : ∀ entry ∈ order, newProperties.lookup entry.1 = some entry.2)
    (htold : ∀ name ∈ namesBeforeAdded oldProperties order, ∀ oldValue newValue,
      ValuesAt oldProperties newProperties name oldValue newValue →
        pair.Says oldValue newValue (pair.didChange fuel oldValue newValue)) :
    pair.LoopSays oldProperties newProperties (namesBeforeAdded oldProperties order)
      (didAnyPropChange (pair.didChange fuel) oldProperties order) := by
  induction order with
  | nil => exact .nil
  | cons entry order ih =>
      have hentry := horder entry List.mem_cons_self
      rw [didAnyPropChange.eq_def]
      by_cases hmem : entry.1 ∈ oldProperties
      case neg =>
          rw [namesBeforeAdded_cons_of_not_mem hmem]
          simp only [Finmap.lookup_eq_none.mpr hmem]
          exact .nil
      rw [namesBeforeAdded_cons_of_mem hmem] at htold ⊢
      have hrest := ih (fun other hother => horder other (List.mem_cons_of_mem entry hother))
        (fun name hname => htold name (List.mem_cons_of_mem entry.1 hname))
      obtain ⟨oldProp, holdProp⟩ := Finmap.mem_iff.mp hmem
      simp only [holdProp]
      cases holdValue : getVarstrValue oldProp.value with
      | none =>
          refine .of_broken ?_
          rintro oldValue newValue ⟨found, -, hfound, -, hread, -⟩
          obtain rfl := Option.some.inj (hfound.symm.trans holdProp)
          exact nomatch holdValue.symm.trans hread
      | some oldValue =>
          cases hnewValue : getVarstrValue entry.2.value with
          | none =>
              refine .of_broken ?_
              rintro oldValue newValue ⟨-, found, -, hfound, -, hread⟩
              obtain rfl := Option.some.inj (hfound.symm.trans hentry)
              exact nomatch hnewValue.symm.trans hread
          | some newValue =>
              have hvalues : ValuesAt oldProperties newProperties entry.1 oldValue newValue :=
                ⟨oldProp, entry.2, holdProp, hentry, holdValue, hnewValue⟩
              obtain ⟨hbroken, hvisible, hnotVisible⟩ :=
                htold entry.1 List.mem_cons_self oldValue newValue hvalues
              cases hresult : pair.didChange fuel oldValue newValue with
              | none =>
                  simp only [hresult]
                  refine .of_broken fun otherOld otherNew hother => ?_
                  obtain ⟨rfl, rfl⟩ := hvalues.unique hother
                  exact hbroken.mp hresult
              | some changed =>
                  simp only [hresult]
                  have hwhole : ¬ pair.Broken oldValue newValue := by
                    rw [← hbroken, hresult]
                    nofun
                  cases changed with
                  | true => exact .of_visible hvalues hwhole (hvisible hresult)
                  | false => exact .of_quiet hvalues hwhole (hnotVisible hresult) hrest

theorem didExtResourceReferenceChange_iff (oldResource newResource : Option ExternalResourceNode) :
    didExtResourceReferenceChange oldResource newResource = true ↔
      (oldResource.map fun node => (node.resourceType, node.path, node.uid)) ≠
        newResource.map fun node => (node.resourceType, node.path, node.uid) := by
  cases oldResource with
  | none =>
      cases newResource with
      | none => simp [didExtResourceReferenceChange]
      | some newNode => simp [didExtResourceReferenceChange]
  | some oldNode =>
      cases newResource with
      | none => simp [didExtResourceReferenceChange]
      | some newNode =>
          simp only [didExtResourceReferenceChange, Option.map_some, ne_eq, Option.some.injEq,
            Prod.mk.injEq, Bool.or_eq_true, decide_eq_true_eq]
          tauto

/-- From some depth on, the comparison of two values says what it has to. -/
def Decided (pair : ScenePair) (oldValue newValue : VariantStrValue) : Prop :=
  ∀ᶠ fuel in Filter.atTop, pair.Says oldValue newValue (pair.didChange fuel oldValue newValue)

/-- What is compared without going through properties is decided at once, and exactly. -/
theorem decided_of_forall (changed : Bool)
    (hreturns : ∀ fuel, pair.didChange (fuel + 1) oldValue newValue = some changed)
    (hseen : ¬ pair.Hidden oldValue newValue) (hwhole : ¬ pair.Broken oldValue newValue)
    (hiff : changed = true ↔ ¬ pair.Same oldValue newValue) :
    pair.Decided oldValue newValue := by
  refine Filter.eventually_atTop.mpr ⟨1, fun fuel hfuel => ?_⟩
  obtain ⟨depth, rfl⟩ := Nat.exists_eq_add_of_le' hfuel
  rw [hreturns depth]
  refine ⟨iff_of_false nofun hwhole, fun htrue => ?_, fun hfalse hvisible => ?_⟩
  · exact ⟨hiff.mp (Option.some.inj htrue), hseen⟩
  · exact Bool.false_ne_true ((Option.some.inj hfalse).symm.trans (hiff.mpr hvisible.1))

/-- A comparison of two values that are not both sub-resources, nor both unset. -/
theorem decided_of_not_subResource
    (hvalue : ¬ (oldValue.kind = .subResource ∧ newValue.kind = .subResource))
    (hset : ¬ (oldValue.kind = .unset ∧ newValue.kind = .unset)) :
    pair.Decided oldValue newValue := by
  have hseen : ¬ pair.Hidden oldValue newValue := by
    intro hhidden
    cases hhidden with
    | behind => exact hvalue ⟨rfl, rfl⟩
  have hwhole : ¬ pair.Broken oldValue newValue := by
    intro hbroken
    cases hbroken with
    | within => exact hvalue ⟨rfl, rfl⟩
  cases oldValue <;> cases newValue
  case subResourceId.subResourceId => exact absurd ⟨rfl, rfl⟩ hvalue
  case defaultValue.defaultValue => exact absurd ⟨rfl, rfl⟩ hset
  case variant.variant oldText newText =>
    refine decided_of_forall _ (fun _ => rfl) hseen hwhole ?_
    simp [Same, GodotScene.expand, GodotScene.expandWith]
  case resourcePath.resourcePath oldPath newPath =>
    refine decided_of_forall _ (fun _ => rfl) hseen hwhole ?_
    simp [Same, GodotScene.expand, GodotScene.expandWith]
  case extResourceId.extResourceId oldId newId =>
    refine decided_of_forall _ (fun _ => rfl) hseen hwhole ?_
    rw [didExtResourceReferenceChange_iff]
    simp [Same, GodotScene.expand, GodotScene.expandWith]
  all_goals
    exact decided_of_forall true (fun _ => rfl) hseen hwhole
      (iff_of_true rfl (not_same_of_kind nofun))

theorem didChange_subResource (fuel : ℕ) (oldId newId : String) :
    pair.didChange (fuel + 1) (.subResourceId oldId) (.subResourceId newId) =
      didSubResourceChange (pair.didChange fuel) (pair.orders newId)
        (pair.oldScene.subResources.lookup oldId) (pair.newScene.subResources.lookup newId) :=
  rfl

/-- Where one of two sub-resources is missing, there is nothing to go through. -/
theorem decided_of_missing
    (hmissing : pair.oldScene.subResources.lookup oldId = none ∨
      pair.newScene.subResources.lookup newId = none) :
    pair.Decided (.subResourceId oldId) (.subResourceId newId) := by
  have hseen : ¬ pair.Hidden (.subResourceId oldId) (.subResourceId newId) := by
    intro hhidden
    cases hhidden with
    | behind hold hnew =>
        rw [hold, hnew] at hmissing
        simp at hmissing
  have hwhole : ¬ pair.Broken (.subResourceId oldId) (.subResourceId newId) := by
    intro hbroken
    cases hbroken with
    | within hold hnew =>
        rw [hold, hnew] at hmissing
        simp at hmissing
  refine decided_of_forall (decide
    ((pair.oldScene.subResources.lookup oldId).isSome ≠
      (pair.newScene.subResources.lookup newId).isSome)) (fun fuel => ?_) hseen hwhole ?_
  · rw [didChange_subResource]
    cases hold : pair.oldScene.subResources.lookup oldId with
    | none =>
        cases hnew : pair.newScene.subResources.lookup newId with
        | none => rfl
        | some newNode => rfl
    | some oldNode =>
        rw [hmissing.resolve_left (by rw [hold]; exact Option.some_ne_none oldNode)]
        rfl
  · rw [Same, GodotScene.expand_subResource pair.oldAcyclic,
      GodotScene.expand_subResource pair.newAcyclic, GodotScene.expandNode, GodotScene.expandNode]
    cases hold : pair.oldScene.subResources.lookup oldId with
    | none =>
        cases hnew : pair.newScene.subResources.lookup newId with
        | none => simp
        | some newNode => simp
    | some oldNode =>
        rw [hmissing.resolve_left (by rw [hold]; exact Option.some_ne_none oldNode)]
        simp

/-- Where two sub-resources differ neither in type nor by a removed property, their comparison is
broken if the loop over the new properties is. -/
theorem broken_iff (hold : pair.oldScene.subResources.lookup oldId = some oldNode)
    (hnew : pair.newScene.subResources.lookup newId = some newNode)
    (htype : oldNode.resourceType = newNode.resourceType)
    (hkept : oldNode.properties.keys ⊆ newNode.properties.keys) :
    pair.Broken (.subResourceId oldId) (.subResourceId newId) ↔
      pair.LoopBroken oldNode.properties newNode.properties
        (namesBeforeAdded oldNode.properties (pair.orders newId)) := by
  constructor
  · intro hbroken
    cases hbroken with
    | within hotherOld hotherNew _ _ before name after hnames hquiet hbroken =>
        obtain rfl := Option.some.inj (hold.symm.trans hotherOld)
        obtain rfl := Option.some.inj (hnew.symm.trans hotherNew)
        exact ⟨before, name, after, hnames, hquiet, hbroken⟩
  · rintro ⟨before, name, after, hnames, hquiet, hbroken⟩
    exact .within hold hnew htype hkept before name after hnames hquiet hbroken

theorem not_broken_of_differ (hold : pair.oldScene.subResources.lookup oldId = some oldNode)
    (hnew : pair.newScene.subResources.lookup newId = some newNode)
    (hdiffer : ¬ (oldNode.resourceType = newNode.resourceType ∧
      oldNode.properties.keys ⊆ newNode.properties.keys)) :
    ¬ pair.Broken (.subResourceId oldId) (.subResourceId newId) := by
  intro hbroken
  cases hbroken with
  | within hotherOld hotherNew htype hkept =>
      obtain rfl := Option.some.inj (hold.symm.trans hotherOld)
      obtain rfl := Option.some.inj (hnew.symm.trans hotherNew)
      exact hdiffer ⟨htype, hkept⟩

/-- One step down: two sub-resources are compared if what their properties refer to is. -/
theorem says_of_nodes {fuel : ℕ}
    (hold : pair.oldScene.subResources.lookup oldId = some oldNode)
    (hnew : pair.newScene.subResources.lookup newId = some newNode)
    (htold : ∀ name ∈ namesBeforeAdded oldNode.properties (pair.orders newId),
      ∀ oldValue newValue, ValuesAt oldNode.properties newNode.properties name oldValue newValue →
        pair.Says oldValue newValue (pair.didChange fuel oldValue newValue)) :
    pair.Says (.subResourceId oldId) (.subResourceId newId)
      (pair.didChange (fuel + 1) (.subResourceId oldId) (.subResourceId newId)) := by
  rw [didChange_subResource, hold, hnew, didSubResourceChange]
  by_cases htype : oldNode.resourceType = newNode.resourceType
  case neg =>
      rw [if_pos htype]
      refine ⟨iff_of_false nofun ?_, fun _ => visible_of_type hold hnew htype, nofun⟩
      exact not_broken_of_differ hold hnew fun hsame => htype hsame.1
  by_cases hkept : oldNode.properties.keys ⊆ newNode.properties.keys
  case neg =>
      rw [if_neg (not_not.mpr htype), if_pos hkept]
      refine ⟨iff_of_false nofun ?_, fun _ => visible_of_removed hold hnew hkept, nofun⟩
      exact not_broken_of_differ hold hnew fun hsame => hkept hsame.2
  rw [if_neg (not_not.mpr htype), if_neg (not_not.mpr hkept)]
  have hloop := loopSays
    (fun entry hentry => (pair.iterates newId newNode hnew).mem_iff.mp hentry) htold
  refine ⟨hloop.broken.trans (broken_iff hold hnew htype hkept).symm, fun htrue => ?_,
    fun hfalse => not_visible hold hnew htype hkept (hloop.notVisible hfalse)⟩
  obtain ⟨name, hname, oldValue, newValue, hvalues, hvisible⟩ := hloop.visible htrue
  exact visible_of_visible hold hnew hname hvalues hvisible

/-- Two sub-resources are decided if what their properties refer to is. -/
theorem decided_of_nodes (hold : pair.oldScene.subResources.lookup oldId = some oldNode)
    (hnew : pair.newScene.subResources.lookup newId = some newNode)
    (hinner : ∀ name oldValue newValue,
      ValuesAt oldNode.properties newNode.properties name oldValue newValue →
        pair.Decided oldValue newValue) :
    pair.Decided (.subResourceId oldId) (.subResourceId newId) := by
  have hnames : ∀ᶠ fuel in Filter.atTop,
      ∀ name ∈ {name | name ∈ namesBeforeAdded oldNode.properties (pair.orders newId)},
        ∀ oldValue newValue,
          ValuesAt oldNode.properties newNode.properties name oldValue newValue →
            pair.Says oldValue newValue (pair.didChange fuel oldValue newValue) := by
    refine (Filter.eventually_all_finite (List.finite_toSet _)).mpr fun name _ => ?_
    by_cases hread : ∃ oldValue newValue,
        ValuesAt oldNode.properties newNode.properties name oldValue newValue
    · obtain ⟨oldValue, newValue, hvalues⟩ := hread
      filter_upwards [hinner name oldValue newValue hvalues] with fuel hfuel
      intro otherOld otherNew hother
      obtain ⟨rfl, rfl⟩ := hvalues.unique hother
      exact hfuel
    · refine Filter.Eventually.of_forall fun fuel oldValue newValue hvalues => ?_
      exact absurd ⟨oldValue, newValue, hvalues⟩ hread
  obtain ⟨bound, hbound⟩ := Filter.eventually_atTop.mp hnames
  refine Filter.eventually_atTop.mpr ⟨bound + 1, fun fuel hfuel => ?_⟩
  obtain ⟨depth, rfl⟩ := Nat.exists_eq_add_of_le' (Nat.le_trans (Nat.le_add_left 1 bound) hfuel)
  exact says_of_nodes hold hnew (hbound depth (Nat.le_of_succ_le_succ hfuel))

theorem exists_id_of_kind {value : VariantStrValue} (hkind : value.kind = .subResource) :
    ∃ id, value = .subResourceId id := by
  cases value with
  | subResourceId id => exact ⟨id, rfl⟩
  | variant text => exact nomatch hkind
  | resourcePath path => exact nomatch hkind
  | extResourceId id => exact nomatch hkind
  | defaultValue kind prop => exact nomatch hkind

/-- By induction on what the new sub-resource refers to. -/
theorem decided_subResource (oldId newId : String) :
    pair.Decided (.subResourceId oldId) (.subResourceId newId) := by
  induction newId using pair.newAcyclic.wellFounded.induction generalizing oldId with
  | _ newId ih =>
      cases hold : pair.oldScene.subResources.lookup oldId with
      | none => exact decided_of_missing (.inl hold)
      | some oldNode =>
          cases hnew : pair.newScene.subResources.lookup newId with
          | none => exact decided_of_missing (.inr hnew)
          | some newNode =>
              refine decided_of_nodes hold hnew fun name oldValue newValue hvalues => ?_
              obtain ⟨oldProp, newProp, holdProp, hnewProp, holdValue, hnewValue⟩ := hvalues
              by_cases hboth : oldValue.kind = .subResource ∧ newValue.kind = .subResource
              · obtain ⟨oldInner, rfl⟩ := exists_id_of_kind hboth.1
                obtain ⟨newInner, rfl⟩ := exists_id_of_kind hboth.2
                exact ih newInner ⟨newNode, name, newProp, hnew, hnewProp, hnewValue⟩ oldInner
              · exact decided_of_not_subResource hboth
                  fun hunset => kind_ne_unset hnewValue hunset.2

/-- **From some depth on, the comparison of two values returns whether they differ visibly, unless
it comes to a text that cannot be read.** -/
theorem decided (hset : ¬ (oldValue.kind = .unset ∧ newValue.kind = .unset)) :
    pair.Decided oldValue newValue := by
  by_cases hboth : oldValue.kind = .subResource ∧ newValue.kind = .subResource
  · obtain ⟨oldId, rfl⟩ := exists_id_of_kind hboth.1
    obtain ⟨newId, rfl⟩ := exists_id_of_kind hboth.2
    exact decided_subResource oldId newId
  · exact decided_of_not_subResource hboth hset

/-- A comparison returns one result, whatever the depth. -/
theorem returns_iff_of_decided (hdecided : pair.Decided oldValue newValue) :
    (∃ bound, ∀ fuel ≥ bound, ∃ changed, pair.didChange fuel oldValue newValue = some changed ∧
      (changed = true ↔ ¬ pair.Same oldValue newValue)) ↔
      ¬ pair.Hidden oldValue newValue ∧ ¬ pair.Broken oldValue newValue := by
  obtain ⟨bound, hbound⟩ := Filter.eventually_atTop.mp hdecided
  constructor
  · rintro ⟨other, hother⟩
    have htold := hbound (max bound other) (le_max_left _ _)
    obtain ⟨changed, hchanged, hdiffers⟩ := hother (max bound other) (le_max_right _ _)
    rw [hchanged] at htold
    refine ⟨fun hhidden => ?_, htold.broken.not.mp nofun⟩
    have hvisible := htold.visible (congrArg some (hdiffers.mpr hhidden.not_same))
    exact hvisible.2 hhidden
  · rintro ⟨hseen, hwhole⟩
    refine ⟨bound, fun fuel hfuel => ?_⟩
    have htold := hbound fuel hfuel
    obtain ⟨changed, hchanged⟩ := Option.ne_none_iff_exists'.mp (htold.broken.not.mpr hwhole)
    refine ⟨changed, hchanged, fun htrue => ?_, fun hdiffer => ?_⟩
    · exact (htold.visible (htrue ▸ hchanged)).1
    · by_contra hfalse
      exact htold.notVisible (Bool.eq_false_of_not_eq_true hfalse ▸ hchanged) ⟨hdiffer, hseen⟩

section Texts

variable (hold : pair.oldScene.ReadsAsWritten) (hnew : pair.newScene.ReadsAsWritten)
include hold hnew

/-- Where every text can be read, no comparison is broken. -/
theorem not_broken : ¬ pair.Broken oldValue newValue := by
  intro hbroken
  induction hbroken with
  | @within oldId newId oldNode newNode holdNode hnewNode _ _ before name after hnames _ _ ih =>
      have hmem : name ∈ namesBeforeAdded oldNode.properties (pair.orders newId) := by
        rw [hnames]
        exact List.mem_append_right _ List.mem_cons_self
      obtain ⟨holdName, hnewName⟩ :=
        mem_of_mem_namesBeforeAdded (pair.iterates newId newNode hnewNode) hmem
      obtain ⟨oldProp, holdProp⟩ := Finmap.mem_iff.mp holdName
      obtain ⟨newProp, hnewProp⟩ := Finmap.mem_iff.mp hnewName
      exact ih _ _ ⟨oldProp, newProp, holdProp, hnewProp,
        hold oldId oldNode name oldProp holdNode holdProp,
        hnew newId newNode name newProp hnewNode hnewProp⟩

theorem sameTexts_iff {oldText newText : String} :
    pair.SameTexts oldText newText ↔ pair.Same (writtenValue oldText) (writtenValue newText) := by
  rw [SameTexts, Same, hold.expandText_eq pair.oldAcyclic, hnew.expandText_eq pair.newAcyclic]

end Texts

/-- **Two paths that are read as references to sub-resources which neither scene has are taken for
the same.** -/
theorem not_exact_misread {oldPath newPath : String} (hold : PlainName oldPath)
    (hnew : PlainName newPath) (holdSub : containsText oldPath "SubResource(" = true)
    (hnewSub : containsText newPath "SubResource(" = true) (hne : oldPath ≠ newPath)
    (holdMissing : pair.oldScene.subResources.lookup oldPath = none)
    (hnewMissing : pair.newScene.subResources.lookup newPath = none) :
    ¬ pair.Exact (reference "Resource" oldPath) (reference "Resource" newPath) := by
  rintro ⟨oldValue, newValue, holdValue, hnewValue, bound, hexact⟩
  obtain rfl := Option.some.inj (holdValue.symm.trans (getVarstrValue_misread hold holdSub))
  obtain rfl := Option.some.inj (hnewValue.symm.trans (getVarstrValue_misread hnew hnewSub))
  obtain ⟨changed, hchanged, hdiffers⟩ := hexact (bound + 1) (Nat.le_succ bound)
  have hfalse : pair.didChange (bound + 1) (.subResourceId oldPath) (.subResourceId newPath) =
      some false := by
    rw [didChange_subResource, holdMissing, hnewMissing]
    rfl
  obtain rfl := Option.some.inj (hfalse.symm.trans hchanged)
  refine Bool.false_ne_true (hdiffers.mpr fun hsame => hne ?_)
  simp only [SameTexts, GodotScene.expandText, asWritten, Option.elim_some,
    writtenValue_resource hold.unquoted, writtenValue_resource hnew.unquoted] at hsame
  exact Expansion.resource.inj hsame

end ScenePair

/-- A scene with one sub-resource. -/
def boxScene (properties : Properties) : GodotScene where
  loadSteps := 2
  format := 3
  uid := "uid://box"
  scriptClass := none
  resourceType := "Resource"
  rootNodeId := none
  extResources := ∅
  subResources := Finmap.singleton "box" ⟨"box", "BoxShape3D", properties, 0⟩
  connections := ∅
  editableInstances := []
  mainResource := none
  nodes := ∅

theorem lookup_boxScene {properties : Properties} {id : String} {node : SubResourceNode}
    (hnode : (boxScene properties).subResources.lookup id = some node) :
    id = "box" ∧ node = ⟨"box", "BoxShape3D", properties, 0⟩ := by
  have hid : id = "box" := (Finmap.mem_singleton _ _ _).mp (Finmap.mem_of_lookup_eq_some hnode)
  subst hid
  rw [boxScene, Finmap.lookup_singleton_eq] at hnode
  exact ⟨rfl, (Option.some.inj hnode).symm⟩

/-- A sub-resource whose size is set. -/
def sizeSet : Properties := Finmap.singleton "size" ⟨"Vector3(1, 2, 3)", 0⟩

theorem lookup_sizeSet {prop : String} {property : OrderedProperty}
    (hproperty : sizeSet.lookup prop = some property) : property = ⟨"Vector3(1, 2, 3)", 0⟩ := by
  have hprop : prop = "size" :=
    (Finmap.mem_singleton _ _ _).mp (Finmap.mem_of_lookup_eq_some hproperty)
  subst hprop
  rw [sizeSet, Finmap.lookup_singleton_eq] at hproperty
  exact (Option.some.inj hproperty).symm

theorem not_refers_boxScene {properties : Properties} {inner outer : String}
    (hplain : ∀ prop property, properties.lookup prop = some property →
      getVarstrValue property.value ≠ some (.subResourceId inner)) :
    ¬ (boxScene properties).Refers inner outer := by
  rintro ⟨node, prop, property, hnode, hproperty, hvalue⟩
  obtain ⟨-, rfl⟩ := lookup_boxScene hnode
  exact hplain prop property hproperty hvalue

theorem acyclic_of_not_refers {scene : GodotScene}
    (hnone : ∀ inner outer, ¬ scene.Refers inner outer) : scene.Acyclic := by
  intro id hcycle
  obtain ⟨next, hrefers, -⟩ := exists_next_of_cycle hcycle
  exact hnone id next hrefers

theorem acyclic_boxScene_empty : (boxScene ∅).Acyclic := by
  apply acyclic_of_not_refers
  intro inner outer
  exact not_refers_boxScene fun prop property hproperty => by simp at hproperty

theorem acyclic_boxScene_sizeSet : (boxScene sizeSet).Acyclic := by
  apply acyclic_of_not_refers
  intro inner outer
  apply not_refers_boxScene
  intro prop property hproperty
  have hread : getVarstrValue "Vector3(1, 2, 3)" = some (.variant "Vector3(1, 2, 3)") := by decide
  rw [lookup_sizeSet hproperty, hread]
  nofun

/-- The size of a box is set. -/
def sizeAdded : ScenePair where
  oldScene := boxScene ∅
  newScene := boxScene sizeSet
  oldAcyclic := acyclic_boxScene_empty
  newAcyclic := acyclic_boxScene_sizeSet
  orders _ := [⟨"size", ⟨"Vector3(1, 2, 3)", 0⟩⟩]
  iterates id node hnode := by
    obtain ⟨-, rfl⟩ := lookup_boxScene hnode
    rfl

theorem readsAsWritten_boxScene {properties : Properties}
    (hread : ∀ prop property, properties.lookup prop = some property →
      ReadAsWritten property.value) : (boxScene properties).ReadsAsWritten := by
  intro id node prop property hnode hproperty
  obtain ⟨-, rfl⟩ := lookup_boxScene hnode
  exact hread prop property hproperty

theorem readsAsWritten_boxScene_sizeSet : (boxScene sizeSet).ReadsAsWritten := by
  refine readsAsWritten_boxScene fun prop property hproperty => ?_
  rw [lookup_sizeSet hproperty]
  decide

theorem readsAsWritten_sizeAdded :
    sizeAdded.oldScene.ReadsAsWritten ∧ sizeAdded.newScene.ReadsAsWritten :=
  ⟨readsAsWritten_boxScene fun prop property hproperty => by simp at hproperty,
    readsAsWritten_boxScene_sizeSet⟩

namespace ScenePair

end ScenePair

end Backstitch
