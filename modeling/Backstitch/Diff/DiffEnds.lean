/-
# Comparisons that end

`did_prop_change` follows references between sub-resources without remembering where it has
been.  It is run here with its panics told apart from a recursion that goes on, so that it can be
said exactly when it ends: when it never comes back to two values that it is still comparing.
-/

import Backstitch.Diff.PropChanges
import Backstitch.Library.Reach
import Backstitch.Library.Run
import Backstitch.Parser.Parse
import Mathlib.Data.Finite.Prod

namespace Backstitch

open Relation

/-! ## Running a comparison -/

/-- The loop over the new properties, run. -/
def runAnyPropChange (didPropChange : VariantStrValue → VariantStrValue → Run Bool)
    (oldProperties : Properties) : List (Entry String OrderedProperty) → Run Bool
  | [] => .done false
  | ⟨path, newProp⟩ :: rest =>
      match oldProperties.lookup path with
      | none => .done false
      | some oldProp =>
          match getVarstrValue oldProp.value, getVarstrValue newProp.value with
          | some oldValue, some newValue => do
              let changed ← didPropChange oldValue newValue
              if changed then return true
              else runAnyPropChange didPropChange oldProperties rest
          | _, _ => .panic

/-- `did_sub_resource_change`, run. -/
def runSubResourceChange (didPropChange : VariantStrValue → VariantStrValue → Run Bool)
    (order : List (Entry String OrderedProperty))
    (oldResource newResource : Option SubResourceNode) : Run Bool :=
  match oldResource, newResource with
  | none, none => .done false
  | none, some _ => .done true
  | some _, none => .done true
  | some old, some new =>
      if old.resourceType ≠ new.resourceType then .done true
      else if ¬ old.properties.keys ⊆ new.properties.keys then .done true
      else runAnyPropChange didPropChange old.properties order

/-- `did_prop_change`, run to a bounded depth. -/
def runPropChange (orders : PropOrders) : ℕ → Option VariantStrValue → Option VariantStrValue →
    Option GodotScene → Option GodotScene → Run Bool
  | 0, _, _, _, _ => .running
  | fuel + 1, oldValue, newValue, oldScene, newScene =>
      match oldValue, newValue with
      | none, none => .done false
      | none, some _ => .done true
      | some _, none => .done true
      | some oldValue, some newValue =>
          match oldScene, newScene with
          | none, _ => .done true
          | some _, none => .done true
          | some oldScene, some newScene =>
              match oldValue, newValue with
              | .subResourceId oldId, .subResourceId newId =>
                  runSubResourceChange
                    (fun old new => runPropChange orders fuel (some old) (some new)
                      (some oldScene) (some newScene))
                    (orders newId) (oldScene.subResources.lookup oldId)
                    (newScene.subResources.lookup newId)
              | .extResourceId oldId, .extResourceId newId =>
                  .done (didExtResourceReferenceChange (oldScene.extResources.lookup oldId)
                    (newScene.extResources.lookup newId))
              | .resourcePath oldPath, .resourcePath newPath => .done (oldPath ≠ newPath)
              | .variant oldText, .variant newText => .done (oldText ≠ newText)
              | _, _ => .done true

/-- What a run returns, if it returns. -/
def Run.returned {α : Type} : Run α → Option α
  | .done value => some value
  | .fail _ | .panic | .running => none

theorem returned_runAnyPropChange {run : VariantStrValue → VariantStrValue → Run Bool}
    {oldProperties : Properties} (order : List (Entry String OrderedProperty)) :
    (runAnyPropChange run oldProperties order).returned =
      didAnyPropChange (fun old new => (run old new).returned) oldProperties order := by
  induction order with
  | nil => rfl
  | cons entry order ih =>
      obtain ⟨path, newProp⟩ := entry
      rw [runAnyPropChange, didAnyPropChange]
      cases oldProperties.lookup path with
      | none => rfl
      | some oldProp =>
          dsimp only
          cases getVarstrValue oldProp.value with
          | none => rfl
          | some oldValue =>
              cases getVarstrValue newProp.value with
              | none => rfl
              | some newValue =>
                  dsimp only
                  cases run oldValue newValue with
                  | done changed =>
                      cases changed with
                      | true => rfl
                      | false => exact ih
                  | fail message => rfl
                  | panic => rfl
                  | running => rfl

/-- **A run returns what the comparison says.** -/
theorem returned_runPropChange (orders : PropOrders) (fuel : ℕ)
    (oldValue newValue : Option VariantStrValue) (oldScene newScene : Option GodotScene) :
    (runPropChange orders fuel oldValue newValue oldScene newScene).returned =
      didPropChange orders fuel oldValue newValue oldScene newScene := by
  induction fuel generalizing oldValue newValue with
  | zero => rfl
  | succ fuel ih =>
      cases oldValue <;> cases newValue <;> cases oldScene <;> cases newScene <;> try rfl
      rename_i oldValue newValue oldScene newScene
      cases oldValue <;> cases newValue <;> try rfl
      rename_i oldId newId
      rw [runPropChange, didPropChange]
      unfold runSubResourceChange didSubResourceChange
      cases oldScene.subResources.lookup oldId with
      | none => cases newScene.subResources.lookup newId <;> rfl
      | some oldNode =>
          cases newScene.subResources.lookup newId with
          | none => rfl
          | some newNode =>
              by_cases htype : oldNode.resourceType ≠ newNode.resourceType
              · simp only [if_pos htype, Run.returned]
              by_cases hremoved : ¬ oldNode.properties.keys ⊆ newNode.properties.keys
              · simp only [if_neg htype, if_pos hremoved, Run.returned]
              simp only [if_neg htype, if_neg hremoved, returned_runAnyPropChange, ih]

/-! ## What a comparison comes to -/

/-- Two scenes that are compared, with the orders of the new properties. -/
structure SceneComparison where
  oldScene : GodotScene
  newScene : GodotScene
  orders : PropOrders
  iterates : ∀ id node, newScene.subResources.lookup id = some node →
    node.properties.Iterates (orders id)

namespace SceneComparison

variable (scenes : SceneComparison)

/-- `did_prop_change` of two values, run. -/
def runChange (fuel : ℕ) (oldValue newValue : VariantStrValue) : Run Bool :=
  runPropChange scenes.orders fuel (some oldValue) (some newValue) (some scenes.oldScene)
    (some scenes.newScene)

/-- Two sub-resources are there on their sides, have the same type, and no property was removed:
their comparison goes through their properties. -/
structure Opens (oldId newId : String) (oldNode newNode : SubResourceNode) : Prop where
  old : scenes.oldScene.subResources.lookup oldId = some oldNode
  new : scenes.newScene.subResources.lookup newId = some newNode
  sameType : oldNode.resourceType = newNode.resourceType
  kept : oldNode.properties.keys ⊆ newNode.properties.keys

/-- No change is to be found between two values: they are the same, or refer to sub-resources
among whose shared properties, before the first one that was added, no change is to be found. -/
inductive Quiet : VariantStrValue → VariantStrValue → Prop
  | variant (text : String) : Quiet (.variant text) (.variant text)
  | resourcePath (path : String) : Quiet (.resourcePath path) (.resourcePath path)
  | extResource {oldId newId : String}
      (hsame : (scenes.oldScene.extResources.lookup oldId).map
          (fun node => (node.resourceType, node.path, node.uid)) =
        (scenes.newScene.extResources.lookup newId).map
          fun node => (node.resourceType, node.path, node.uid)) :
      Quiet (.extResourceId oldId) (.extResourceId newId)
  | missing {oldId newId : String} (hold : scenes.oldScene.subResources.lookup oldId = none)
      (hnew : scenes.newScene.subResources.lookup newId = none) :
      Quiet (.subResourceId oldId) (.subResourceId newId)
  | subResource {oldId newId : String} {oldNode newNode : SubResourceNode}
      (hopens : scenes.Opens oldId newId oldNode newNode)
      (hread : ∀ name ∈ namesBeforeAdded oldNode.properties (scenes.orders newId),
        ∃ oldValue newValue,
          ValuesAt oldNode.properties newNode.properties name oldValue newValue)
      (hquiet : ∀ name ∈ namesBeforeAdded oldNode.properties (scenes.orders newId),
        ∀ oldValue newValue,
          ValuesAt oldNode.properties newNode.properties name oldValue newValue →
            Quiet oldValue newValue) :
      Quiet (.subResourceId oldId) (.subResourceId newId)

/-- A property of both sides can be read, and no change is to be found in it. -/
def QuietAt (oldProperties newProperties : Properties) (name : String) : Prop :=
  ∃ oldValue newValue, ValuesAt oldProperties newProperties name oldValue newValue ∧
    scenes.Quiet oldValue newValue

/-- While two values are compared, two others come to be compared: they are the values of a
property that is shared, and no change is to be found in those that come before it. -/
def Comes (outer inner : VariantStrValue × VariantStrValue) : Prop :=
  ∃ oldId newId oldNode newNode, outer = (.subResourceId oldId, .subResourceId newId) ∧
    scenes.Opens oldId newId oldNode newNode ∧ ∃ before name after,
      namesBeforeAdded oldNode.properties (scenes.orders newId) = before ++ name :: after ∧
        (∀ other ∈ before, scenes.QuietAt oldNode.properties newNode.properties other) ∧
        ValuesAt oldNode.properties newNode.properties name inner.1 inner.2

/-- The recursion ends: some depth is enough for it to return or to panic. -/
def Ends (oldValue newValue : Option VariantStrValue) : Prop :=
  ∃ fuel, runPropChange scenes.orders fuel oldValue newValue (some scenes.oldScene)
    (some scenes.newScene) ≠ .running

/-! ## One loop -/

/-- A loop stops at a property: its comparison gives the result, or its texts cannot be read. -/
def StopsAt (run : VariantStrValue → VariantStrValue → Run Bool)
    (oldProperties newProperties : Properties) (name : String) (result : Run Bool) : Prop :=
  (∃ oldValue newValue, ValuesAt oldProperties newProperties name oldValue newValue ∧
    run oldValue newValue = result) ∨
  result = .panic ∧
    ∀ oldValue newValue, ¬ ValuesAt oldProperties newProperties name oldValue newValue

section Loop

variable {scenes} {run more : VariantStrValue → VariantStrValue → Run Bool}
  {oldProperties newProperties : Properties} {order : List (Entry String OrderedProperty)}
  {name : String} {oldValue newValue : VariantStrValue}

theorem runAnyPropChange_cons {entry : Entry String OrderedProperty} {oldProp : OrderedProperty}
    (holdProp : oldProperties.lookup entry.1 = some oldProp)
    (holdValue : getVarstrValue oldProp.value = some oldValue)
    (hnewValue : getVarstrValue entry.2.value = some newValue) :
    runAnyPropChange run oldProperties (entry :: order) =
      (run oldValue newValue >>= fun changed =>
        if changed then pure true else runAnyPropChange run oldProperties order) := by
  obtain ⟨path, newProp⟩ := entry
  rw [runAnyPropChange]
  simp only [holdProp, holdValue, hnewValue]

theorem runAnyPropChange_cons_of_not_mem {entry : Entry String OrderedProperty}
    (hmem : entry.1 ∉ oldProperties) :
    runAnyPropChange run oldProperties (entry :: order) = .done false := by
  obtain ⟨path, newProp⟩ := entry
  rw [runAnyPropChange]
  simp only [Finmap.lookup_eq_none.mpr hmem]

/-- The first of the shared properties has two values, or the loop panics at it. -/
theorem exists_valuesAt_or_panic (run : VariantStrValue → VariantStrValue → Run Bool)
    (order : List (Entry String OrderedProperty)) {entry : Entry String OrderedProperty}
    (hentry : newProperties.lookup entry.1 = some entry.2) (hmem : entry.1 ∈ oldProperties) :
    (∃ oldValue newValue, ValuesAt oldProperties newProperties entry.1 oldValue newValue ∧
      runAnyPropChange run oldProperties (entry :: order) =
        (run oldValue newValue >>= fun changed =>
          if changed then pure true else runAnyPropChange run oldProperties order)) ∨
    ((∀ oldValue newValue,
        ¬ ValuesAt oldProperties newProperties entry.1 oldValue newValue) ∧
      runAnyPropChange run oldProperties (entry :: order) = .panic) := by
  obtain ⟨oldProp, holdProp⟩ := Finmap.mem_iff.mp hmem
  cases holdValue : getVarstrValue oldProp.value with
  | none =>
      refine .inr ⟨?_, ?_⟩
      · rintro oldValue newValue ⟨found, -, hfound, -, hread, -⟩
        obtain rfl := Option.some.inj (hfound.symm.trans holdProp)
        exact nomatch holdValue.symm.trans hread
      · obtain ⟨path, newProp⟩ := entry
        rw [runAnyPropChange]
        simp only [holdProp, holdValue]
  | some oldValue =>
      cases hnewValue : getVarstrValue entry.2.value with
      | none =>
          refine .inr ⟨?_, ?_⟩
          · rintro oldValue newValue ⟨-, found, -, hfound, -, hread⟩
            obtain rfl := Option.some.inj (hfound.symm.trans hentry)
            exact nomatch hnewValue.symm.trans hread
          · obtain ⟨path, newProp⟩ := entry
            rw [runAnyPropChange]
            simp only [holdProp, holdValue, hnewValue]
      | some newValue =>
          exact .inl ⟨oldValue, newValue, ⟨oldProp, entry.2, holdProp, hentry, holdValue, hnewValue⟩,
            runAnyPropChange_cons holdProp holdValue hnewValue⟩

/-- A loop that ends ends alike with comparisons that go on for longer. -/
theorem runAnyPropChange_mono
    (hmore : ∀ oldValue newValue, run oldValue newValue ≠ .running →
      more oldValue newValue = run oldValue newValue)
    (hends : runAnyPropChange run oldProperties order ≠ .running) :
    runAnyPropChange more oldProperties order = runAnyPropChange run oldProperties order := by
  induction order with
  | nil => rfl
  | cons entry order ih =>
      obtain ⟨path, newProp⟩ := entry
      rw [runAnyPropChange] at hends ⊢
      rw [runAnyPropChange]
      cases hold : oldProperties.lookup path with
      | none => rfl
      | some oldProp =>
          simp only [hold] at hends
          dsimp only
          cases holdValue : getVarstrValue oldProp.value with
          | none => rfl
          | some oldValue =>
              cases hnewValue : getVarstrValue newProp.value with
              | none => rfl
              | some newValue =>
                  simp only [holdValue, hnewValue] at hends
                  dsimp only
                  have hrun : run oldValue newValue ≠ .running := by
                    intro hrunning
                    exact hends (by rw [hrunning]; rfl)
                  rw [hmore oldValue newValue hrun]
                  cases hfirst : run oldValue newValue with
                  | done changed =>
                      cases changed with
                      | true => rfl
                      | false =>
                          rw [hfirst] at hends
                          exact ih hends
                  | fail message => rfl
                  | panic => rfl
                  | running => rfl

variable (horder : ∀ entry ∈ order, newProperties.lookup entry.1 = some entry.2)
include horder

/-- A loop finds no change if no comparison before the first added property does. -/
theorem runAnyPropChange_eq_false_iff :
    runAnyPropChange run oldProperties order = .done false ↔
      ∀ name ∈ namesBeforeAdded oldProperties order, ∃ oldValue newValue,
        ValuesAt oldProperties newProperties name oldValue newValue ∧
          run oldValue newValue = .done false := by
  induction order with
  | nil => exact iff_of_true rfl fun name hname => nomatch hname
  | cons entry order ih =>
      have hrest := ih fun other hother => horder other (List.mem_cons_of_mem entry hother)
      by_cases hmem : entry.1 ∈ oldProperties
      case neg =>
          rw [namesBeforeAdded_cons_of_not_mem hmem, runAnyPropChange_cons_of_not_mem hmem]
          exact iff_of_true rfl fun name hname => nomatch hname
      rw [namesBeforeAdded_cons_of_mem hmem, List.forall_mem_cons, ← hrest]
      rcases exists_valuesAt_or_panic run order
        (horder entry List.mem_cons_self) hmem with ⟨oldValue, newValue, hvalues, hstep⟩ |
        ⟨hunread, hpanic⟩
      · rw [hstep]
        have hfirst : (∃ otherOld otherNew,
            ValuesAt oldProperties newProperties entry.1 otherOld otherNew ∧
              run otherOld otherNew = .done false) ↔ run oldValue newValue = .done false := by
          constructor
          · rintro ⟨otherOld, otherNew, hother, hfalse⟩
            obtain ⟨rfl, rfl⟩ := hvalues.unique hother
            exact hfalse
          · intro hfalse
            exact ⟨oldValue, newValue, hvalues, hfalse⟩
        rw [hfirst]
        cases run oldValue newValue with
        | done changed => cases changed <;> simp
        | fail message => simp
        | panic => simp
        | running => simp
      · rw [hpanic]
        refine iff_of_false nofun ?_
        rintro ⟨⟨oldValue, newValue, hvalues, -⟩, -⟩
        exact hunread oldValue newValue hvalues

/-- **A loop that does not return stops at a property, after others that find no change.** -/
theorem exists_stop_of_loop {result : Run Bool}
    (hstop : runAnyPropChange run oldProperties order = result)
    (hresult : ∀ changed, result ≠ .done changed) :
    ∃ before name after, namesBeforeAdded oldProperties order = before ++ name :: after ∧
      (∀ other ∈ before, ∃ oldValue newValue,
        ValuesAt oldProperties newProperties other oldValue newValue ∧
          run oldValue newValue = .done false) ∧
      StopsAt run oldProperties newProperties name result := by
  induction order with
  | nil => exact absurd hstop.symm (hresult false)
  | cons entry order ih =>
      by_cases hmem : entry.1 ∈ oldProperties
      case neg =>
          rw [runAnyPropChange_cons_of_not_mem hmem] at hstop
          exact absurd hstop.symm (hresult false)
      rw [namesBeforeAdded_cons_of_mem hmem]
      rcases exists_valuesAt_or_panic run order
        (horder entry List.mem_cons_self) hmem with ⟨oldValue, newValue, hvalues, hstep⟩ |
        ⟨hunread, hpanic⟩
      case inr =>
          exact ⟨[], entry.1, _, rfl, fun _ hother => (nomatch hother),
            .inr ⟨hstop.symm.trans hpanic, hunread⟩⟩
      rw [hstep] at hstop
      by_cases hfirst : run oldValue newValue = .done false
      · rw [hfirst] at hstop
        obtain ⟨before, name, after, hnames, hquiet, hstopped⟩ :=
          ih (fun other hother => horder other (List.mem_cons_of_mem entry hother)) hstop
        refine ⟨entry.1 :: before, name, after, by rw [hnames]; rfl, ?_, hstopped⟩
        intro other hother
        rcases List.mem_cons.mp hother with rfl | hother
        · exact ⟨oldValue, newValue, hvalues, hfirst⟩
        · exact hquiet other hother
      · refine ⟨[], entry.1, _, rfl, fun _ hother => (nomatch hother),
          .inl ⟨oldValue, newValue, hvalues, ?_⟩⟩
        cases hrun : run oldValue newValue with
        | done changed =>
            rw [hrun] at hstop
            cases changed with
            | true => exact absurd hstop.symm (hresult true)
            | false => exact absurd hrun hfirst
        | fail message =>
            rw [hrun] at hstop
            exact hstop
        | panic =>
            rw [hrun] at hstop
            exact hstop
        | running =>
            rw [hrun] at hstop
            exact hstop

/-- A loop that ends does not go on in a comparison that it comes to. -/
theorem run_ne_running_of_loop {before after : List String}
    (hends : runAnyPropChange run oldProperties order ≠ .running)
    (hnames : namesBeforeAdded oldProperties order = before ++ name :: after)
    (hquiet : ∀ other ∈ before, ∃ oldValue newValue,
      ValuesAt oldProperties newProperties other oldValue newValue ∧
        (run oldValue newValue ≠ .running → run oldValue newValue = .done false))
    (hvalues : ValuesAt oldProperties newProperties name oldValue newValue) :
    run oldValue newValue ≠ .running := by
  induction before generalizing order with
  | nil =>
      cases order with
      | nil => exact nomatch hnames
      | cons entry order =>
          by_cases hmem : entry.1 ∈ oldProperties
          case neg =>
              rw [namesBeforeAdded_cons_of_not_mem hmem] at hnames
              exact nomatch hnames
          rw [namesBeforeAdded_cons_of_mem hmem] at hnames
          obtain ⟨rfl, -⟩ := List.cons.inj hnames
          intro hrunning
          rcases exists_valuesAt_or_panic run order
            (horder entry List.mem_cons_self) hmem with ⟨otherOld, otherNew, hother, hstep⟩ |
            ⟨hunread, -⟩
          · obtain ⟨rfl, rfl⟩ := hvalues.unique hother
            exact hends (by rw [hstep, hrunning]; rfl)
          · exact hunread oldValue newValue hvalues
  | cons first before ih =>
      cases order with
      | nil => exact nomatch hnames
      | cons entry order =>
          by_cases hmem : entry.1 ∈ oldProperties
          case neg =>
              rw [namesBeforeAdded_cons_of_not_mem hmem] at hnames
              exact nomatch hnames
          rw [namesBeforeAdded_cons_of_mem hmem] at hnames
          obtain ⟨rfl, hafter⟩ := List.cons.inj hnames
          obtain ⟨firstOld, firstNew, hfirst, hfalse⟩ := hquiet entry.1 List.mem_cons_self
          obtain ⟨oldProp, newProp, holdProp, hnewProp, holdValue, hnewValue⟩ := hfirst
          obtain rfl : newProp = entry.2 := by
            rw [horder entry List.mem_cons_self] at hnewProp
            exact (Option.some.inj hnewProp).symm
          rw [runAnyPropChange_cons holdProp holdValue hnewValue] at hends
          have hdone : run firstOld firstNew = .done false := by
            apply hfalse
            intro hrunning
            exact hends (by rw [hrunning]; rfl)
          have hrest : runAnyPropChange run oldProperties order ≠ .running := by
            simpa [hdone] using hends
          exact ih (fun other hother => horder other (List.mem_cons_of_mem entry hother)) hrest
            hafter fun other hother => hquiet other (List.mem_cons_of_mem entry.1 hother)

end Loop

/-! ## When a comparison ends -/

variable {scenes} {oldValue newValue : VariantStrValue} {oldId newId : String}
  {oldNode newNode : SubResourceNode}

theorem runChange_subResource (fuel : ℕ) (oldId newId : String) :
    scenes.runChange (fuel + 1) (.subResourceId oldId) (.subResourceId newId) =
      runSubResourceChange (scenes.runChange fuel) (scenes.orders newId)
        (scenes.oldScene.subResources.lookup oldId)
        (scenes.newScene.subResources.lookup newId) :=
  rfl

/-- The properties of sub-resources are gone through. -/
theorem runChange_of_opens (hopens : scenes.Opens oldId newId oldNode newNode) (fuel : ℕ) :
    scenes.runChange (fuel + 1) (.subResourceId oldId) (.subResourceId newId) =
      runAnyPropChange (scenes.runChange fuel) oldNode.properties (scenes.orders newId) := by
  rw [runChange_subResource, hopens.old, hopens.new]
  unfold runSubResourceChange
  dsimp only
  rw [if_neg (not_not.mpr hopens.sameType), if_neg (not_not.mpr hopens.kept)]

theorem Opens.lookup_order (hopens : scenes.Opens oldId newId oldNode newNode) :
    ∀ entry ∈ scenes.orders newId, newNode.properties.lookup entry.1 = some entry.2 :=
  fun _ hentry => (scenes.iterates newId newNode hopens.new).mem_iff.mp hentry

/-- Two sub-resources of which one is missing, or that differ in type or by a removed property. -/
theorem exists_done_of_not_opens
    (hclosed : ¬ ∃ oldNode newNode, scenes.Opens oldId newId oldNode newNode) :
    ∃ changed, (∀ fuel, scenes.runChange (fuel + 1) (.subResourceId oldId) (.subResourceId newId) =
      .done changed) ∧ (changed = false → scenes.Quiet (.subResourceId oldId)
        (.subResourceId newId)) := by
  simp only [runChange_subResource]
  unfold runSubResourceChange
  cases hold : scenes.oldScene.subResources.lookup oldId with
  | none =>
      cases hnew : scenes.newScene.subResources.lookup newId with
      | none => exact ⟨false, fun _ => rfl, fun _ => .missing hold hnew⟩
      | some newNode => exact ⟨true, fun _ => rfl, nofun⟩
  | some oldNode =>
      cases hnew : scenes.newScene.subResources.lookup newId with
      | none => exact ⟨true, fun _ => rfl, nofun⟩
      | some newNode =>
          refine ⟨true, fun fuel => ?_, nofun⟩
          dsimp only
          by_cases htype : oldNode.resourceType = newNode.resourceType
          · rw [if_neg (not_not.mpr htype), if_pos]
            intro hkept
            exact hclosed ⟨oldNode, newNode, hold, hnew, htype, hkept⟩
          · exact if_pos htype

/-- Where no properties are gone through, the first depth is enough. -/
theorem exists_done_or_opens (oldValue newValue : VariantStrValue) :
    (∃ changed, (∀ fuel, scenes.runChange (fuel + 1) oldValue newValue = .done changed) ∧
      (changed = false → scenes.Quiet oldValue newValue)) ∨
      ∃ oldId newId oldNode newNode, oldValue = .subResourceId oldId ∧
        newValue = .subResourceId newId ∧ scenes.Opens oldId newId oldNode newNode := by
  cases oldValue <;> cases newValue
  case variant.variant oldText newText =>
    refine .inl ⟨_, fun _ => rfl, fun hsame => ?_⟩
    obtain rfl := not_not.mp (of_decide_eq_false hsame)
    exact .variant oldText
  case resourcePath.resourcePath oldPath newPath =>
    refine .inl ⟨_, fun _ => rfl, fun hsame => ?_⟩
    obtain rfl := not_not.mp (of_decide_eq_false hsame)
    exact .resourcePath oldPath
  case extResourceId.extResourceId oldId newId =>
    refine .inl ⟨_, fun _ => rfl, fun hsame => .extResource ?_⟩
    by_contra hdiffer
    exact Bool.false_ne_true
      (hsame.symm.trans ((ScenePair.didExtResourceReferenceChange_iff _ _).mpr hdiffer))
  case subResourceId.subResourceId oldId newId =>
    by_cases hopens : ∃ oldNode newNode, scenes.Opens oldId newId oldNode newNode
    · obtain ⟨oldNode, newNode, hopens⟩ := hopens
      exact .inr ⟨oldId, newId, oldNode, newNode, rfl, rfl, hopens⟩
    · exact .inl (exists_done_of_not_opens hopens)
  all_goals exact .inl ⟨true, fun _ => rfl, nofun⟩

/-- More depth changes nothing once a run ends. -/
theorem runChange_succ {fuel : ℕ} (hends : scenes.runChange fuel oldValue newValue ≠ .running) :
    scenes.runChange (fuel + 1) oldValue newValue = scenes.runChange fuel oldValue newValue := by
  induction fuel generalizing oldValue newValue with
  | zero => exact absurd rfl hends
  | succ fuel ih =>
      rcases exists_done_or_opens oldValue newValue with ⟨changed, hdone, -⟩ |
        ⟨oldId, newId, oldNode, newNode, rfl, rfl, hopens⟩
      · rw [hdone, hdone]
      · rw [runChange_of_opens hopens] at hends ⊢
        rw [runChange_of_opens hopens]
        exact runAnyPropChange_mono (fun _ _ hrun => ih hrun) hends

theorem runChange_mono {fuel more : ℕ} (hmore : fuel ≤ more)
    (hends : scenes.runChange fuel oldValue newValue ≠ .running) :
    scenes.runChange more oldValue newValue = scenes.runChange fuel oldValue newValue := by
  induction more, hmore using Nat.le_induction with
  | base => rfl
  | succ more _ ih =>
      rw [← ih]
      apply runChange_succ
      rw [ih]
      exact hends

/-- What holds of each name in a list from some depth on holds of all of them from some depth
on. -/
theorem eventually_forall_mem {names : List String} {holds : ℕ → String → Prop}
    (hnames : ∀ name ∈ names, ∀ᶠ fuel in Filter.atTop, holds fuel name) :
    ∀ᶠ fuel in Filter.atTop, ∀ name ∈ names, holds fuel name :=
  (Filter.eventually_all_finite (List.finite_toSet names)).mpr hnames

/-- A comparison that says no change finds none. -/
theorem quiet_of_done {fuel : ℕ} (hdone : scenes.runChange fuel oldValue newValue = .done false) :
    scenes.Quiet oldValue newValue := by
  induction fuel generalizing oldValue newValue with
  | zero => exact nomatch hdone
  | succ fuel ih =>
      rcases exists_done_or_opens oldValue newValue with ⟨changed, hchanged, hquiet⟩ |
        ⟨oldId, newId, oldNode, newNode, rfl, rfl, hopens⟩
      · rw [hchanged] at hdone
        exact hquiet (Run.done.inj hdone)
      rw [runChange_of_opens hopens, runAnyPropChange_eq_false_iff hopens.lookup_order] at hdone
      refine .subResource hopens (fun name hname => ?_) fun name hname => ?_
      · obtain ⟨oldValue, newValue, hvalues, -⟩ := hdone name hname
        exact ⟨oldValue, newValue, hvalues⟩
      · intro oldValue newValue hvalues
        obtain ⟨otherOld, otherNew, hother, hfalse⟩ := hdone name hname
        obtain ⟨rfl, rfl⟩ := hvalues.unique hother
        exact ih hfalse

theorem eventually_done_of_exists {result : Bool}
    (hsome : ∃ fuel, scenes.runChange fuel oldValue newValue = .done result) :
    ∀ᶠ fuel in Filter.atTop, scenes.runChange fuel oldValue newValue = .done result := by
  obtain ⟨fuel, hdone⟩ := hsome
  refine Filter.eventually_atTop.mpr ⟨fuel, fun more hmore => ?_⟩
  rw [runChange_mono hmore (by rw [hdone]; nofun), hdone]

/-- **Where no change is to be found, the comparison says so.** -/
theorem Quiet.exists_done (hquiet : scenes.Quiet oldValue newValue) :
    ∃ fuel, scenes.runChange fuel oldValue newValue = .done false := by
  induction hquiet with
  | variant text => exact ⟨1, congrArg Run.done (decide_eq_false (not_not.mpr rfl))⟩
  | resourcePath path => exact ⟨1, congrArg Run.done (decide_eq_false (not_not.mpr rfl))⟩
  | extResource hsame =>
      refine ⟨1, congrArg Run.done (Bool.eq_false_of_not_eq_true fun htrue => ?_)⟩
      exact (ScenePair.didExtResourceReferenceChange_iff _ _).mp htrue hsame
  | missing hold hnew =>
      refine ⟨1, ?_⟩
      rw [runChange_subResource, hold, hnew]
      rfl
  | @subResource oldId newId oldNode newNode hopens hread _ ih =>
      have hall : ∀ᶠ fuel in Filter.atTop,
          ∀ name ∈ namesBeforeAdded oldNode.properties (scenes.orders newId),
            ∃ oldValue newValue,
              ValuesAt oldNode.properties newNode.properties name oldValue newValue ∧
                scenes.runChange fuel oldValue newValue = .done false := by
        apply eventually_forall_mem
        intro name hname
        obtain ⟨oldValue, newValue, hvalues⟩ := hread name hname
        filter_upwards [eventually_done_of_exists (ih name hname oldValue newValue hvalues)]
          with fuel hdone
        exact ⟨oldValue, newValue, hvalues, hdone⟩
      obtain ⟨fuel, hfuel⟩ := hall.exists
      refine ⟨fuel + 1, ?_⟩
      rw [runChange_of_opens hopens, runAnyPropChange_eq_false_iff hopens.lookup_order]
      exact hfuel

/-- A comparison that ends comes to nothing that goes on. -/
theorem acc_of_ends {fuel : ℕ} (hends : scenes.runChange fuel oldValue newValue ≠ .running) :
    Acc (Function.swap scenes.Comes) (oldValue, newValue) := by
  induction fuel generalizing oldValue newValue with
  | zero => exact absurd rfl hends
  | succ fuel ih =>
      refine Acc.intro _ fun inner hcomes => ?_
      obtain ⟨innerOld, innerNew⟩ := inner
      obtain ⟨oldId, newId, oldNode, newNode, heq, hopens, before, name, after, hnames, hquiet,
        hvalues⟩ := hcomes
      obtain ⟨rfl, rfl⟩ := Prod.mk.inj heq
      rw [runChange_of_opens hopens] at hends
      apply ih
      refine run_ne_running_of_loop hopens.lookup_order hends hnames ?_ hvalues
      intro other hother
      obtain ⟨otherOld, otherNew, hotherValues, hotherQuiet⟩ := hquiet other hother
      refine ⟨otherOld, otherNew, hotherValues, fun hrun => ?_⟩
      obtain ⟨more, hmore⟩ := hotherQuiet.exists_done
      have hlater : scenes.runChange (max fuel more) otherOld otherNew = .done false := by
        rw [runChange_mono (le_max_right fuel more) (by rw [hmore]; nofun), hmore]
      rw [← runChange_mono (le_max_left fuel more) hrun, hlater]

/-- A comparison ends if all that it comes to ends. -/
theorem exists_ends_of_acc {values : VariantStrValue × VariantStrValue}
    (hacc : Acc (Function.swap scenes.Comes) values) :
    ∃ fuel, scenes.runChange fuel values.1 values.2 ≠ .running := by
  induction hacc with
  | intro values _ ih =>
      obtain ⟨oldValue, newValue⟩ := values
      rcases exists_done_or_opens oldValue newValue with ⟨changed, hchanged, -⟩ |
        ⟨oldId, newId, oldNode, newNode, rfl, rfl, hopens⟩
      · exact ⟨1, by rw [hchanged]; nofun⟩
      have hall : ∀ᶠ fuel in Filter.atTop,
          ∀ name ∈ namesBeforeAdded oldNode.properties (scenes.orders newId),
            ∀ oldValue newValue,
              ValuesAt oldNode.properties newNode.properties name oldValue newValue →
                scenes.Comes (.subResourceId oldId, .subResourceId newId) (oldValue, newValue) →
                  scenes.runChange fuel oldValue newValue ≠ .running := by
        apply eventually_forall_mem
        intro name _
        by_cases hcomes : ∃ oldValue newValue,
            ValuesAt oldNode.properties newNode.properties name oldValue newValue ∧
              scenes.Comes (.subResourceId oldId, .subResourceId newId) (oldValue, newValue)
        · obtain ⟨oldValue, newValue, hvalues, hcomes⟩ := hcomes
          obtain ⟨bound, hbound⟩ := ih (oldValue, newValue) hcomes
          refine Filter.eventually_atTop.mpr ⟨bound, fun more hmore => ?_⟩
          intro otherOld otherNew hother _
          obtain ⟨rfl, rfl⟩ := hvalues.unique hother
          rw [runChange_mono hmore hbound]
          exact hbound
        · refine Filter.Eventually.of_forall fun fuel oldValue newValue hvalues hother => ?_
          exact absurd ⟨oldValue, newValue, hvalues, hother⟩ hcomes
      obtain ⟨fuel, hfuel⟩ := hall.exists
      refine ⟨fuel + 1, fun hrunning => ?_⟩
      dsimp only at hrunning
      rw [runChange_of_opens hopens] at hrunning
      obtain ⟨before, name, after, hnames, hquiet, hstops⟩ :=
        exists_stop_of_loop hopens.lookup_order hrunning nofun
      rcases hstops with ⟨oldValue, newValue, hvalues, hstuck⟩ | ⟨hpanic, -⟩
      case inr => exact nomatch hpanic
      have hcomes : scenes.Comes (.subResourceId oldId, .subResourceId newId)
          (oldValue, newValue) := by
        refine ⟨oldId, newId, oldNode, newNode, rfl, hopens, before, name, after, hnames, ?_,
          hvalues⟩
        intro other hother
        obtain ⟨otherOld, otherNew, hotherValues, hdone⟩ := hquiet other hother
        exact ⟨otherOld, otherNew, hotherValues, quiet_of_done hdone⟩
      have hname : name ∈ namesBeforeAdded oldNode.properties (scenes.orders newId) := by
        rw [hnames]
        exact List.mem_append_right _ List.mem_cons_self
      exact hfuel name hname oldValue newValue hvalues hcomes hstuck

/-- The values of the properties of the sub-resources of a scene. -/
def subResourceValues (scene : GodotScene) : Set VariantStrValue :=
  {value | ∃ id node prop property, scene.subResources.lookup id = some node ∧
    node.properties.lookup prop = some property ∧ getVarstrValue property.value = some value}

theorem finite_subResourceValues (scene : GodotScene) : (subResourceValues scene).Finite := by
  have hproperties : {property : OrderedProperty | ∃ node : SubResourceNode,
      (∃ id, scene.subResources.lookup id = some node) ∧
        ∃ prop, node.properties.lookup prop = some property}.Finite := by
    refine (scene.subResources.finite_values.biUnion fun node _ =>
      node.properties.finite_values).subset ?_
    rintro property ⟨node, hnode, hproperty⟩
    exact Set.mem_biUnion hnode hproperty
  have hread := hproperties.image fun property => getVarstrValue property.value
  refine (hread.preimage (Option.some_injective _).injOn).subset ?_
  rintro value ⟨id, node, prop, property, hnode, hproperty, hvalue⟩
  exact ⟨property, ⟨node, ⟨id, hnode⟩, prop, hproperty⟩, hvalue⟩

/-- A comparison comes to finitely many others. -/
theorem finite_reached (start : VariantStrValue × VariantStrValue) :
    {reached | ReflTransGen scenes.Comes start reached}.Finite := by
  have hvalues : (insert start
      (subResourceValues scenes.oldScene ×ˢ subResourceValues scenes.newScene)).Finite :=
    ((finite_subResourceValues _).prod (finite_subResourceValues _)).insert start
  refine hvalues.subset fun reached hreached => ?_
  rcases ReflTransGen.cases_tail hreached with rfl | ⟨before, -, hcomes⟩
  · exact Set.mem_insert _ _
  · obtain ⟨oldId, newId, oldNode, newNode, -, hopens, -, name, -, -, -, hvalues⟩ := hcomes
    obtain ⟨oldProp, newProp, holdProp, hnewProp, holdValue, hnewValue⟩ := hvalues
    exact Set.mem_insert_of_mem _
      ⟨⟨oldId, oldNode, name, oldProp, hopens.old, holdProp, holdValue⟩,
        newId, newNode, name, newProp, hopens.new, hnewProp, hnewValue⟩

/-- **When `did_prop_change` ends**: for any two scenes, any two values, and whatever the orders
of the properties, if and only if it never comes back to two values that it is still comparing. -/
theorem ends_iff (scenes : SceneComparison) (oldValue newValue : Option VariantStrValue) :
    scenes.Ends oldValue newValue ↔ ∀ old ∈ oldValue, ∀ new ∈ newValue, ∀ reached,
      ReflTransGen scenes.Comes (old, new) reached → ¬ TransGen scenes.Comes reached reached := by
  cases oldValue with
  | none =>
      refine iff_of_true ⟨1, ?_⟩ fun _ hold => nomatch hold
      cases newValue <;> nofun
  | some oldValue =>
      cases newValue with
      | none => exact iff_of_true ⟨1, nofun⟩ fun _ _ _ hnew => nomatch hnew
      | some newValue =>
          have hacc := acc_iff_forall_not_cycle (scenes.finite_reached (oldValue, newValue))
          constructor
          · rintro ⟨fuel, hends⟩ old ⟨⟩ new ⟨⟩
            exact hacc.mp (acc_of_ends hends)
          · intro hnone
            exact exists_ends_of_acc (hacc.mpr (hnone oldValue rfl newValue rfl))

/-- What comes to be compared next is what the sub-resources refer to. -/
theorem Comes.refers {outer : VariantStrValue × VariantStrValue} {oldInner newInner : String}
    (hcomes : scenes.Comes outer (.subResourceId oldInner, .subResourceId newInner)) :
    ∃ oldOuter newOuter, outer = (.subResourceId oldOuter, .subResourceId newOuter) ∧
      scenes.oldScene.Refers oldInner oldOuter ∧ scenes.newScene.Refers newInner newOuter := by
  obtain ⟨oldId, newId, oldNode, newNode, rfl, hopens, -, name, -, -, -, hvalues⟩ := hcomes
  obtain ⟨oldProp, newProp, holdProp, hnewProp, holdValue, hnewValue⟩ := hvalues
  exact ⟨oldId, newId, rfl, ⟨oldNode, name, oldProp, hopens.old, holdProp, holdValue⟩,
    newNode, name, newProp, hopens.new, hnewProp, hnewValue⟩

/-- A cycle of comparisons is a cycle of references on both sides. -/
theorem refers_of_transGen {oldInner newInner : String}
    {outer : VariantStrValue × VariantStrValue}
    (hcomes : TransGen scenes.Comes outer (.subResourceId oldInner, .subResourceId newInner)) :
    ∃ oldOuter newOuter, outer = (.subResourceId oldOuter, .subResourceId newOuter) ∧
      TransGen scenes.oldScene.Refers oldInner oldOuter ∧
        TransGen scenes.newScene.Refers newInner newOuter := by
  induction hcomes using TransGen.head_induction_on with
  | single hstep =>
      obtain ⟨oldOuter, newOuter, heq, hold, hnew⟩ := hstep.refers
      exact ⟨oldOuter, newOuter, heq, .single hold, .single hnew⟩
  | head hstep _ ih =>
      obtain ⟨oldMiddle, newMiddle, rfl, hold, hnew⟩ := ih
      obtain ⟨oldOuter, newOuter, heq, holdStep, hnewStep⟩ := hstep.refers
      exact ⟨oldOuter, newOuter, heq, hold.tail holdStep, hnew.tail hnewStep⟩

/-- **If one of two scenes has no cycles, every comparison ends.** -/
theorem ends_of_acyclic (hacyclic : scenes.oldScene.Acyclic ∨ scenes.newScene.Acyclic)
    (oldValue newValue : Option VariantStrValue) : scenes.Ends oldValue newValue := by
  rw [ends_iff]
  rintro old - new - reached - hcycle
  obtain ⟨next, hcomes, -⟩ := TransGen.head'_iff.mp hcycle
  obtain ⟨oldId, newId, -, -, rfl, -⟩ := hcomes
  obtain ⟨oldOuter, newOuter, heq, hold, hnew⟩ := refers_of_transGen hcycle
  obtain ⟨holdId, hnewId⟩ := Prod.mk.inj heq
  obtain rfl := VariantStrValue.subResourceId.inj holdId
  obtain rfl := VariantStrValue.subResourceId.inj hnewId
  rcases hacyclic with hacyclic | hacyclic
  · exact hacyclic oldId hold
  · exact hacyclic newId hnew

end SceneComparison

/-- The text of a resource with a box that refers to itself. -/
def loopSections : List Section :=
  [⟨"gd_resource", [("type", "\"Resource\""), ("load_steps", "2"), ("format", "3"),
      ("uid", "\"uid://box\"")], []⟩,
    ⟨"sub_resource", [("type", "\"BoxShape3D\""), ("id", "\"box\"")],
      [("next", "SubResource(\"box\")")]⟩]

/-- A reference to the box. -/
def nextSet : Properties := Finmap.singleton "next" ⟨"SubResource(\"box\")", 0⟩

theorem parsesTo_loopSections :
    ParsesTo ⟨fun _ => 7, fun _ => ""⟩ loopSections (boxScene nextSet) := ⟨1, by rfl⟩

/-- A resource with a box that refers to itself, compared with itself. -/
def loopTwice : SceneComparison where
  oldScene := boxScene nextSet
  newScene := boxScene nextSet
  orders _ := [⟨"next", ⟨"SubResource(\"box\")", 0⟩⟩]
  iterates id node hnode := by
    obtain ⟨-, rfl⟩ := lookup_boxScene hnode
    rfl

/-- The comparison of the box comes back to the box. -/
theorem loopTwice_comes : loopTwice.Comes (.subResourceId "box", .subResourceId "box")
    (.subResourceId "box", .subResourceId "box") := by
  refine ⟨"box", "box", _, _, rfl, ⟨rfl, rfl, rfl, subset_rfl⟩, [], "next", [], by decide,
    fun _ hother => (nomatch hother), ?_⟩
  have hread : getVarstrValue "SubResource(\"box\")" = some (.subResourceId "box") := by decide
  exact ⟨_, _, rfl, rfl, hread, hread⟩

/-- **There are scenes of which a comparison does not end.** -/
theorem not_ends_loopTwice :
    ParsesTo ⟨fun _ => 7, fun _ => ""⟩ loopSections loopTwice.oldScene ∧
      ParsesTo ⟨fun _ => 7, fun _ => ""⟩ loopSections loopTwice.newScene ∧
      ¬ loopTwice.Ends (some (.subResourceId "box")) (some (.subResourceId "box")) := by
  refine ⟨parsesTo_loopSections, parsesTo_loopSections, ?_⟩
  rw [SceneComparison.ends_iff]
  intro hnone
  exact hnone _ rfl _ rfl _ .refl (.single loopTwice_comes)

end Backstitch
