/-
# Diffs that return

`get_scene_diff` and `get_text_resource_diff` panic where `get_varstr_value` reads a reference
without a quoted name.  It is said here which texts they come to, and which paths of nodes they
ask for.
-/

import Backstitch.Diff.DiffEnds
import Backstitch.Diff.ListedChanges
import Backstitch.Parser.ParsedNodes

namespace Backstitch

open Relation

/-! ## Comparisons that panic -/

namespace SceneComparison

variable {scenes : SceneComparison} {oldValue newValue : VariantStrValue}

/-- The comparison of two sub-resources comes to a shared property of which one text is unquoted,
and to no change before. -/
def Stuck (scenes : SceneComparison) (values : VariantStrValue × VariantStrValue) : Prop :=
  ∃ oldId newId oldNode newNode, values = (.subResourceId oldId, .subResourceId newId) ∧
    scenes.Opens oldId newId oldNode newNode ∧ ∃ before name after,
      namesBeforeAdded oldNode.properties (scenes.orders newId) = before ++ name :: after ∧
        (∀ other ∈ before, scenes.QuietAt oldNode.properties newNode.properties other) ∧
        ∃ oldProp newProp, oldNode.properties.lookup name = some oldProp ∧
          newNode.properties.lookup name = some newProp ∧
          (Unquoted oldProp.value ∨ Unquoted newProp.value)

/-- The comparison of two values comes to an unquoted text. -/
def ComesToUnquoted (scenes : SceneComparison) (oldValue newValue : VariantStrValue) : Prop :=
  ∃ reached, ReflTransGen scenes.Comes (oldValue, newValue) reached ∧ scenes.Stuck reached

section Loop

variable {run : VariantStrValue → VariantStrValue → Run Bool}
  {oldProperties newProperties : Properties} {order : List (Entry String OrderedProperty)}
  {name : String}

/-- A loop stops at a property that it comes to. -/
theorem runAnyPropChange_eq_panic {before after : List String}
    (horder : ∀ entry ∈ order, newProperties.lookup entry.1 = some entry.2)
    (hnames : namesBeforeAdded oldProperties order = before ++ name :: after)
    (hquiet : ∀ other ∈ before, ∃ oldValue newValue,
      ValuesAt oldProperties newProperties other oldValue newValue ∧
        run oldValue newValue = .done false)
    (hstops : StopsAt run oldProperties newProperties name .panic) :
    runAnyPropChange run oldProperties order = .panic := by
  induction order generalizing before with
  | nil => exact absurd hnames.symm (List.append_ne_nil_of_right_ne_nil _ (List.cons_ne_nil _ _))
  | cons entry order ih =>
      by_cases hmem : entry.1 ∈ oldProperties
      case neg =>
          rw [namesBeforeAdded_cons_of_not_mem hmem] at hnames
          exact absurd hnames.symm (List.append_ne_nil_of_right_ne_nil _ (List.cons_ne_nil _ _))
      rw [namesBeforeAdded_cons_of_mem hmem] at hnames
      rcases exists_valuesAt_or_panic run order
        (horder entry List.mem_cons_self) hmem with ⟨oldValue, newValue, hvalues, hstep⟩ |
        ⟨-, hpanic⟩
      case inr => exact hpanic
      rw [hstep]
      cases before with
      | nil =>
          obtain ⟨rfl, -⟩ := List.cons.inj hnames
          rcases hstops with ⟨otherOld, otherNew, hother, hpanics⟩ | ⟨-, hunread⟩
          · obtain ⟨rfl, rfl⟩ := hvalues.unique hother
            rw [hpanics]
            rfl
          · exact absurd hvalues (hunread oldValue newValue)
      | cons first before =>
          obtain ⟨rfl, hafter⟩ := List.cons.inj hnames
          obtain ⟨otherOld, otherNew, hother, hfalse⟩ := hquiet entry.1 List.mem_cons_self
          obtain ⟨rfl, rfl⟩ := hvalues.unique hother
          rw [hfalse]
          exact ih (fun other hother => horder other (List.mem_cons_of_mem entry hother)) hafter
            fun other hother => hquiet other (List.mem_cons_of_mem entry.1 hother)

/-- A shared property without two values has an unquoted text. -/
theorem unquoted_iff {oldProp newProp : OrderedProperty}
    (holdProp : oldProperties.lookup name = some oldProp)
    (hnewProp : newProperties.lookup name = some newProp) :
    (∀ oldValue newValue, ¬ ValuesAt oldProperties newProperties name oldValue newValue) ↔
      Unquoted oldProp.value ∨ Unquoted newProp.value := by
  rw [← getVarstrValue_eq_none_iff, ← getVarstrValue_eq_none_iff]
  constructor
  · intro hunread
    by_contra hread
    rw [not_or] at hread
    obtain ⟨oldValue, holdValue⟩ := Option.ne_none_iff_exists'.mp hread.1
    obtain ⟨newValue, hnewValue⟩ := Option.ne_none_iff_exists'.mp hread.2
    exact hunread oldValue newValue ⟨oldProp, newProp, holdProp, hnewProp, holdValue, hnewValue⟩
  · rintro hunread oldValue newValue ⟨otherOld, otherNew, hold, hnew, holdValue, hnewValue⟩
    obtain rfl := Option.some.inj (hold.symm.trans holdProp)
    obtain rfl := Option.some.inj (hnew.symm.trans hnewProp)
    rcases hunread with hunread | hunread
    · exact nomatch hunread.symm.trans holdValue
    · exact nomatch hunread.symm.trans hnewValue

end Loop

/-- A comparison returns no error. -/
theorem runChange_ne_fail (fuel : ℕ) (oldValue newValue : VariantStrValue) (message : String) :
    scenes.runChange fuel oldValue newValue ≠ .fail message := by
  induction fuel generalizing oldValue newValue with
  | zero => nofun
  | succ fuel ih =>
      rcases exists_done_or_opens oldValue newValue with ⟨changed, hchanged, -⟩ |
        ⟨oldId, newId, oldNode, newNode, rfl, rfl, hopens⟩
      · rw [hchanged]
        nofun
      rw [runChange_of_opens hopens]
      intro hfail
      obtain ⟨-, name, -, -, -, hstops⟩ := exists_stop_of_loop hopens.lookup_order hfail nofun
      rcases hstops with ⟨oldValue, newValue, -, hfails⟩ | ⟨hpanic, -⟩
      · exact ih oldValue newValue hfails
      · exact nomatch hpanic

theorem comesToUnquoted_of_panic {fuel : ℕ}
    (hpanic : scenes.runChange fuel oldValue newValue = .panic) :
    scenes.ComesToUnquoted oldValue newValue := by
  induction fuel generalizing oldValue newValue with
  | zero => exact nomatch hpanic
  | succ fuel ih =>
      rcases exists_done_or_opens oldValue newValue with ⟨changed, hchanged, -⟩ |
        ⟨oldId, newId, oldNode, newNode, rfl, rfl, hopens⟩
      · rw [hchanged] at hpanic
        exact nomatch hpanic
      rw [runChange_of_opens hopens] at hpanic
      obtain ⟨before, name, after, hnames, hquiet, hstops⟩ :=
        exists_stop_of_loop hopens.lookup_order hpanic nofun
      have hbefore : ∀ other ∈ before,
          scenes.QuietAt oldNode.properties newNode.properties other := by
        intro other hother
        obtain ⟨otherOld, otherNew, hvalues, hdone⟩ := hquiet other hother
        exact ⟨otherOld, otherNew, hvalues, quiet_of_done hdone⟩
      rcases hstops with ⟨innerOld, innerNew, hvalues, hinner⟩ | ⟨-, hunread⟩
      · obtain ⟨reached, hreached, hstuck⟩ := ih hinner
        refine ⟨reached, .head ?_ hreached, hstuck⟩
        exact ⟨oldId, newId, oldNode, newNode, rfl, hopens, before, name, after, hnames, hbefore,
          hvalues⟩
      · have hname : name ∈ namesBeforeAdded oldNode.properties (scenes.orders newId) := by
          rw [hnames]
          exact List.mem_append_right _ List.mem_cons_self
        obtain ⟨hold, hnew⟩ :=
          mem_of_mem_namesBeforeAdded (scenes.iterates newId newNode hopens.new) hname
        obtain ⟨oldProp, holdProp⟩ := Finmap.mem_iff.mp hold
        obtain ⟨newProp, hnewProp⟩ := Finmap.mem_iff.mp hnew
        exact ⟨_, .refl, oldId, newId, oldNode, newNode, rfl, hopens, before, name, after, hnames,
          hbefore, oldProp, newProp, holdProp, hnewProp,
          (unquoted_iff holdProp hnewProp).mp hunread⟩

/-- Where the comparisons before a property find no change, and the comparison of the property
panics or its texts cannot be read, the whole comparison panics. -/
theorem exists_panic_of_stops {oldId newId : String} {oldNode newNode : SubResourceNode}
    (hopens : scenes.Opens oldId newId oldNode newNode) {before after : List String}
    {name : String}
    (hnames : namesBeforeAdded oldNode.properties (scenes.orders newId) =
      before ++ name :: after)
    (hquiet : ∀ other ∈ before, scenes.QuietAt oldNode.properties newNode.properties other)
    (hstops : ∀ᶠ fuel in Filter.atTop,
      StopsAt (scenes.runChange fuel) oldNode.properties newNode.properties name .panic) :
    ∃ fuel, scenes.runChange fuel (.subResourceId oldId) (.subResourceId newId) = .panic := by
  have hall : ∀ᶠ fuel in Filter.atTop, ∀ other ∈ before, ∃ oldValue newValue,
      ValuesAt oldNode.properties newNode.properties other oldValue newValue ∧
        scenes.runChange fuel oldValue newValue = .done false := by
    apply eventually_forall_mem
    intro other hother
    obtain ⟨oldValue, newValue, hvalues, hnone⟩ := hquiet other hother
    filter_upwards [eventually_done_of_exists hnone.exists_done] with fuel hdone
    exact ⟨oldValue, newValue, hvalues, hdone⟩
  obtain ⟨fuel, hbefore, hstopped⟩ := (hall.and hstops).exists
  refine ⟨fuel + 1, ?_⟩
  rw [runChange_of_opens hopens]
  exact runAnyPropChange_eq_panic hopens.lookup_order hnames hbefore hstopped

/-- **A comparison panics exactly if it comes to an unquoted text.** -/
theorem exists_panic_iff :
    (∃ fuel, scenes.runChange fuel oldValue newValue = .panic) ↔
      scenes.ComesToUnquoted oldValue newValue := by
  constructor
  · rintro ⟨fuel, hpanic⟩
    exact comesToUnquoted_of_panic hpanic
  · rintro ⟨reached, hreached, hstuck⟩
    suffices hstart : ∀ values, ReflTransGen scenes.Comes values reached →
        ∃ fuel, scenes.runChange fuel values.1 values.2 = .panic from hstart _ hreached
    intro values hwalk
    induction hwalk using ReflTransGen.head_induction_on with
    | refl =>
        obtain ⟨oldId, newId, oldNode, newNode, rfl, hopens, before, name, after, hnames, hquiet,
          oldProp, newProp, holdProp, hnewProp, hunquoted⟩ := hstuck
        refine exists_panic_of_stops hopens hnames hquiet (.of_forall fun fuel => .inr ⟨rfl, ?_⟩)
        exact (unquoted_iff holdProp hnewProp).mpr hunquoted
    | head hcomes _ ih =>
        obtain ⟨oldId, newId, oldNode, newNode, rfl, hopens, before, name, after, hnames, hquiet,
          hvalues⟩ := hcomes
        obtain ⟨bound, hpanic⟩ := ih
        refine exists_panic_of_stops hopens hnames hquiet ?_
        refine Filter.eventually_atTop.mpr ⟨bound, fun fuel hfuel => .inl ⟨_, _, hvalues, ?_⟩⟩
        rw [runChange_mono hfuel (by rw [hpanic]; nofun), hpanic]

end SceneComparison

/-! ## Scenes without cycles -/

namespace ScenePair

variable (pair : ScenePair)

/-- The two scenes, of which the cycles do not matter. -/
def scenes : SceneComparison where
  oldScene := pair.oldScene
  newScene := pair.newScene
  orders := pair.orders
  iterates := pair.iterates

variable {pair} {oldValue newValue : VariantStrValue}

theorem returned_runChange (fuel : ℕ) :
    (pair.scenes.runChange fuel oldValue newValue).returned =
      pair.didChange fuel oldValue newValue :=
  returned_runPropChange _ _ _ _ _ _

/-- **Without cycles, a comparison is broken exactly if it comes to an unquoted text.** -/
theorem broken_iff_comesToUnquoted (hset : ¬ (oldValue.kind = .unset ∧ newValue.kind = .unset)) :
    pair.Broken oldValue newValue ↔ pair.scenes.ComesToUnquoted oldValue newValue := by
  obtain ⟨bound, hends⟩ : pair.scenes.Ends (some oldValue) (some newValue) :=
    SceneComparison.ends_of_acyclic (.inl pair.oldAcyclic) _ _
  have hrun (fuel : ℕ) (hfuel : bound ≤ fuel) : pair.scenes.runChange fuel oldValue newValue =
      pair.scenes.runChange bound oldValue newValue :=
    SceneComparison.runChange_mono hfuel hends
  have hdecided : pair.Decided oldValue newValue := decided hset
  obtain ⟨fuel, hsays, hfuel⟩ := (hdecided.and (Filter.eventually_ge_atTop bound)).exists
  rw [← hsays.broken, ← returned_runChange, hrun fuel hfuel, ← SceneComparison.exists_panic_iff]
  constructor
  · intro hnone
    refine ⟨bound, ?_⟩
    cases hresult : pair.scenes.runChange bound oldValue newValue with
    | done changed =>
        rw [hresult] at hnone
        exact nomatch hnone
    | fail message => exact absurd hresult (SceneComparison.runChange_ne_fail _ _ _ _)
    | panic => rfl
    | running => exact absurd hresult hends
  · rintro ⟨more, hpanic⟩
    have hsame : pair.scenes.runChange (max bound more) oldValue newValue = .panic := by
      rw [SceneComparison.runChange_mono (le_max_right bound more) (by rw [hpanic]; nofun), hpanic]
    rw [← hrun _ (le_max_left bound more), hsame]
    rfl

end ScenePair

/-! ## Diffs of two versions -/

section Unquoted

variable {ν : Type} [PropertyGetter ν]

/-- A node that may not be there has a property with an unquoted text. -/
def HasUnquoted (node : Option ν) : Prop :=
  ∃ found name property, node = some found ∧
    (getProperties found).lookup name = some property ∧ Unquoted property.value

theorem exists_unreadText_iff {node : Option ν} :
    (∃ name, UnreadText node name) ↔ HasUnquoted node := by
  constructor
  · rintro ⟨name, found, property, hfound, hproperty, hnone⟩
    exact ⟨found, name, property, hfound, hproperty, (getVarstrValue_eq_none_iff _).mp hnone⟩
  · rintro ⟨found, name, property, hfound, hproperty, hunquoted⟩
    exact ⟨name, found, property, hfound, hproperty, (getVarstrValue_eq_none_iff _).mpr hunquoted⟩

end Unquoted

namespace NodeVersions

variable {versions : SceneVersions} {ν : Type} [PropertyGetter ν]

/-- The comparison of a shared property comes to an unquoted text. -/
def ComesToUnquoted (nodes : NodeVersions versions ν) (name : String) : Prop :=
  nodes.Compared (fun pair => pair.scenes.ComesToUnquoted) name

theorem compared_broken_iff {nodes : NodeVersions versions ν} {name : String} :
    nodes.Compared ScenePair.Broken name ↔ nodes.ComesToUnquoted name := by
  have hset {text : String} {oldValue newValue : VariantStrValue}
      (hvalue : getVarstrValue text = some newValue) :
      ¬ (oldValue.kind = .unset ∧ newValue.kind = .unset) :=
    fun hunset => kind_ne_unset hvalue hunset.2
  constructor
  · rintro ⟨oldVersion, newVersion, hnew, hold, oldNode, newNode, holdNode, hnewNode, oldValue,
      newValue, hvalues, hbroken⟩
    obtain ⟨-, newProp, -, -, -, hread⟩ := id hvalues
    exact ⟨oldVersion, newVersion, hnew, hold, oldNode, newNode, holdNode, hnewNode, oldValue,
      newValue, hvalues, (ScenePair.broken_iff_comesToUnquoted (hset hread)).mp hbroken⟩
  · rintro ⟨oldVersion, newVersion, hnew, hold, oldNode, newNode, holdNode, hnewNode, oldValue,
      newValue, hvalues, hcomes⟩
    obtain ⟨-, newProp, -, -, -, hread⟩ := id hvalues
    exact ⟨oldVersion, newVersion, hnew, hold, oldNode, newNode, holdNode, hnewNode, oldValue,
      newValue, hvalues, (ScenePair.broken_iff_comesToUnquoted (hset hread)).mpr hcomes⟩

/-- Comparing the properties comes to an unquoted text. -/
theorem exists_unreadable_iff {nodes : NodeVersions versions ν} :
    (∃ name, nodes.Unreadable name) ↔ HasUnquoted nodes.old ∨ HasUnquoted nodes.new ∨
      ∃ name, nodes.ComesToUnquoted name := by
  simp only [Unreadable, exists_or, exists_unreadText_iff, compared_broken_iff]

end NodeVersions

namespace SceneVersions

variable (versions : SceneVersions)

/-- `get_scene_diff` returns. -/
def SceneDiffReturns (path : String) : Prop :=
  ∃ bound, ∀ fuel ≥ bound,
    versions.env.getSceneDiff fuel path versions.oldScene versions.newScene ≠ none

/-- `get_text_resource_diff` returns. -/
def TextResourceDiffReturns (path : String) : Prop :=
  ∃ bound, ∀ fuel ≥ bound,
    versions.env.getTextResourceDiff fuel path versions.oldScene versions.newScene ≠ none

/-- No node of either version has an unquoted text, the comparison of no property comes to one,
and every node that has visibly changed has a path. -/
structure NodesQuoted : Prop where
  old : ∀ id, ¬ HasUnquoted (versions.nodesAt id).old
  new : ∀ id, ¬ HasUnquoted (versions.nodesAt id).new
  compared : ∀ id name, ¬ (versions.nodesAt id).ComesToUnquoted name
  paths : ∀ id, (versions.nodesAt id).Seen → (versions.nodesAt id).HasNodePath id

/-- No sub-resource and no main resource of either version has an unquoted text. -/
structure ResourcesQuoted : Prop where
  oldSubResource : ∀ id, ¬ HasUnquoted (versions.subResourcesAt id).old
  newSubResource : ∀ id, ¬ HasUnquoted (versions.subResourcesAt id).new
  oldMainResource : ¬ HasUnquoted versions.mainResources.old
  newMainResource : ¬ HasUnquoted versions.mainResources.new

variable {versions}

/-- Where no sub-resource has an unquoted text, no comparison comes to one. -/
theorem not_comesToUnquoted
    (hold : ∀ id, ¬ HasUnquoted (versions.subResourcesAt id).old)
    (hnew : ∀ id, ¬ HasUnquoted (versions.subResourcesAt id).new) {ν : Type} [PropertyGetter ν]
    (nodes : NodeVersions versions ν) (name : String) : ¬ nodes.ComesToUnquoted name := by
  rintro ⟨oldVersion, newVersion, hnewVersion, holdVersion, -, -, -, -, -, -, -, reached, -,
    oldId, newId, oldNode, newNode, -, hopens, -, name, -, -, -, oldProp, newProp, holdProp,
    hnewProp, hunquoted⟩
  rcases hunquoted with hunquoted | hunquoted
  · refine hold oldId ⟨oldNode, name, oldProp, ?_, holdProp, hunquoted⟩
    have hnode : oldVersion.scene.subResources.lookup oldId = some oldNode := hopens.old
    rw [← hnode]
    exact congrArg (fun version => SceneVersion.read version fun scene =>
      scene.subResources.lookup oldId) holdVersion
  · refine hnew newId ⟨newNode, name, newProp, ?_, hnewProp, hunquoted⟩
    have hnode : newVersion.scene.subResources.lookup newId = some newNode := hopens.new
    rw [← hnode]
    exact congrArg (fun version => SceneVersion.read version fun scene =>
      scene.subResources.lookup newId) hnewVersion

/-- What holds for good from some depth on holds if it does at any of them. -/
theorem exists_bound_iff {returns : ℕ → Prop} {stuck : Prop}
    (heventually : ∀ᶠ fuel in Filter.atTop, (¬ returns fuel ↔ stuck)) :
    (∃ bound, ∀ fuel ≥ bound, returns fuel) ↔ ¬ stuck := by
  rw [← Filter.eventually_atTop]
  constructor
  · intro hreturns
    obtain ⟨fuel, hfuel, hstuck⟩ := (hreturns.and heventually).exists
    rw [← hstuck]
    exact not_not.mpr hfuel
  · intro hfree
    filter_upwards [heventually] with fuel hstuck
    by_contra hnone
    exact hfree (hstuck.mp hnone)

theorem sceneDiffReturns_iff (versions : SceneVersions) (path : String) :
    versions.SceneDiffReturns path ↔ versions.NodesQuoted := by
  have hstuck : ∀ᶠ fuel in Filter.atTop,
      (¬ versions.env.getSceneDiff fuel path versions.oldScene versions.newScene ≠ none ↔
        ∃ id, (∃ name, (versions.nodesAt id).Unreadable name) ∨
          (versions.nodesAt id).Seen ∧ ¬ (versions.nodesAt id).HasNodePath id) := by
    filter_upwards [tellsScene versions path] with fuel htells
    rw [not_not]
    exact htells.1
  refine (exists_bound_iff hstuck).trans ?_
  simp only [NodeVersions.exists_unreadable_iff]
  constructor
  · intro hfree
    constructor
    · exact fun id hunquoted => hfree ⟨id, .inl (.inl hunquoted)⟩
    · exact fun id hunquoted => hfree ⟨id, .inl (.inr (.inl hunquoted))⟩
    · exact fun id name hcomes => hfree ⟨id, .inl (.inr (.inr ⟨name, hcomes⟩))⟩
    · intro id hseen
      by_contra hpath
      exact hfree ⟨id, .inr ⟨hseen, hpath⟩⟩
  · rintro hquoted ⟨id, (hold | hnew | ⟨name, hcomes⟩) | ⟨hseen, hpath⟩⟩
    · exact hquoted.old id hold
    · exact hquoted.new id hnew
    · exact hquoted.compared id name hcomes
    · exact hpath (hquoted.paths id hseen)

theorem textResourceDiffReturns_iff (versions : SceneVersions) (path : String) :
    versions.TextResourceDiffReturns path ↔ versions.ResourcesQuoted := by
  have hstuck : ∀ᶠ fuel in Filter.atTop,
      (¬ versions.env.getTextResourceDiff fuel path versions.oldScene versions.newScene ≠ none ↔
        (∃ id name, (versions.subResourcesAt id).Unreadable name) ∨
          ∃ name, versions.mainResources.Unreadable name) := by
    filter_upwards [tellsTextResource versions path] with fuel htells
    rw [not_not]
    exact htells.1
  refine (exists_bound_iff hstuck).trans ?_
  simp only [NodeVersions.exists_unreadable_iff]
  constructor
  · intro hfree
    constructor
    · exact fun id hunquoted => hfree (.inl ⟨id, .inl hunquoted⟩)
    · exact fun id hunquoted => hfree (.inl ⟨id, .inr (.inl hunquoted)⟩)
    · exact fun hunquoted => hfree (.inr (.inl hunquoted))
    · exact fun hunquoted => hfree (.inr (.inr (.inl hunquoted)))
  · intro hquoted
    rintro (⟨id, hold | hnew | ⟨name, hcomes⟩⟩ | hold | hnew | ⟨name, hcomes⟩)
    · exact hquoted.oldSubResource id hold
    · exact hquoted.newSubResource id hnew
    · exact not_comesToUnquoted hquoted.oldSubResource hquoted.newSubResource _ name hcomes
    · exact hquoted.oldMainResource hold
    · exact hquoted.newMainResource hnew
    · exact not_comesToUnquoted hquoted.oldSubResource hquoted.newSubResource _ name hcomes

end SceneVersions

/-! ## Paths of parsed nodes -/

/-- **No lookup of `get_node_path` fails in a parsed scene.** -/
theorem ParsesTo.getNodePath_ne_panic {env : ParseEnv} {sections : List Section}
    {scene : GodotScene} (hparse : ParsesTo env sections scene) {id : NodeId}
    (hid : id ∈ scene.nodes) (fuel : ℕ) : scene.getNodePath fuel id ≠ .panic := by
  have hloop : ∀ path, scene.getNodePathLoop fuel path id ≠ .panic := by
    induction fuel generalizing id with
    | zero => nofun
    | succ fuel ih =>
        intro path
        obtain ⟨node, hnode⟩ := Finmap.mem_iff.mp hid
        rcases GodotScene.getNodePathLoop_succ hnode path with ⟨text, -, hdone⟩ |
          ⟨parent, longer, hnext, hgoesOn⟩
        · rw [hdone]
          nofun
        · obtain ⟨found, hfound, -, hparent, -⟩ := (hnext parent).mpr rfl
          rw [hgoesOn]
          exact ih (hparse.parent_mem hfound hparent) longer
  unfold GodotScene.getNodePath
  split
  · nofun
  · exact hloop ""

/-- **When the diffs return**, for any two versions without cycles of sub-resources, either of
which may be absent, and whatever the orders in which sets and maps are gone through; and the
lookups of `get_node_path` never fail in parsed scenes. -/
theorem diffsReturn_iff (versions : SceneVersions) (path : String) :
    (versions.SceneDiffReturns path ↔ versions.NodesQuoted) ∧
      (versions.TextResourceDiffReturns path ↔ versions.ResourcesQuoted) ∧
      ∀ env sections scene, ParsesTo env sections scene →
        ∀ id ∈ scene.nodes, ∀ fuel, scene.getNodePath fuel id ≠ .panic :=
  ⟨versions.sceneDiffReturns_iff path, versions.textResourceDiffReturns_iff path,
    fun _ _ _ hparse _ hid => hparse.getNodePath_ne_panic hid⟩

/-! ## A reference without quotes -/

/-- The text of a resource with a box whose shape is a reference without quotes. -/
def unquotedSections : List Section :=
  [⟨"gd_resource", [("type", "\"Resource\""), ("load_steps", "2"), ("format", "3"),
      ("uid", "\"uid://box\"")], []⟩,
    ⟨"sub_resource", [("type", "\"BoxShape3D\""), ("id", "\"box\"")],
      [("shape", "Resource(1)")]⟩]

/-- A reference without quotes. -/
def shapeSet : Properties := Finmap.singleton "shape" ⟨"Resource(1)", 0⟩

theorem parsesTo_unquotedSections :
    ParsesTo ⟨fun _ => 7, fun _ => ""⟩ unquotedSections (boxScene shapeSet) := ⟨1, by rfl⟩

theorem acyclic_boxScene_shapeSet : (boxScene shapeSet).Acyclic := by
  apply acyclic_of_not_refers
  intro inner outer
  apply not_refers_boxScene
  intro prop property hproperty
  have hprop : prop = "shape" :=
    (Finmap.mem_singleton _ _ _).mp (Finmap.mem_of_lookup_eq_some hproperty)
  subst hprop
  rw [shapeSet, Finmap.lookup_singleton_eq] at hproperty
  have hread : getVarstrValue "Resource(1)" = none := by decide
  rw [← Option.some.inj hproperty, hread]
  nofun

/-- The resource with an unquoted reference, compared with itself. -/
def unquotedTwice : SceneVersions where
  old := some ⟨boxScene shapeSet, acyclic_boxScene_shapeSet⟩
  new := some ⟨boxScene shapeSet, acyclic_boxScene_shapeSet⟩
  env := {
    before := some "backstitch-branch+1"
    after := some "backstitch-branch+2"
    propOrders := fun _ => [⟨"shape", ⟨"Resource(1)", 0⟩⟩]
    nodeIds := []
    subResourceIds := ["box"]
    nodeProps := fun _ => []
    subResourceProps := fun id => if id = "box" then ["shape"] else []
    mainResourceProps := [] }
  propOrders version hversion id node hnode := by
    obtain rfl := Option.some.inj hversion
    obtain ⟨-, rfl⟩ := lookup_boxScene hnode
    rfl
  nodeIds := rfl
  subResourceIds := rfl
  nodeProps id := rfl
  subResourceProps id := by
    by_cases hid : id = "box"
    · subst hid
      rfl
    · have hlookup : (boxScene shapeSet).subResources.lookup id = none :=
        Finmap.lookup_eq_none.mpr fun hmem => hid ((Finmap.mem_singleton _ _ _).mp hmem)
      simp only [SceneVersion.read, Option.map_some, Option.bind_some, hlookup, if_neg hid]
      rfl
  mainResourceProps := rfl

/-- **The diff of a resource with an unquoted reference does not return.** -/
theorem not_returns_unquotedTwice :
    ParsesTo ⟨fun _ => 7, fun _ => ""⟩ unquotedSections (boxScene shapeSet) ∧
      ¬ unquotedTwice.TextResourceDiffReturns "res://box.tres" := by
  refine ⟨parsesTo_unquotedSections, ?_⟩
  rw [SceneVersions.textResourceDiffReturns_iff]
  intro hquoted
  exact hquoted.newSubResource "box" ⟨_, "shape", _, rfl, rfl, by decide⟩

end Backstitch
