/-
# Types of instanced nodes

An instanced node is to have the root type of the scene that it instances, as that scene is at the
ref of the node.  The loop over the changed files and the table of what is still needed give one
type for every node; it is said here which one, and when it is the right one.
-/

import Backstitch.Diff.ProjectDiffer

namespace Backstitch

/-! ## One node -/

/-- The path of the scene that a node instances, in the version of the node. -/
def instancedPath (oldScene newScene : Option GodotScene) (node : NodeDiff) : Option String :=
  match node.nodeType with
  | some (.ofInstance instanceId) =>
      (if node.isNew then newScene else oldScene).bind fun scene =>
        scene.getExtResourcePath instanceId
  | _ => none

section Node

variable {oldScene newScene : Option GodotScene}
  {oldFiles newFiles oldNeeded newNeeded : ProjectFiles} {node collected : NodeDiff} {needed : Option NeededInstance}

/-- The type that a node comes to have: that of a changed scene, or of one that was loaded at the
other ref. -/
def finalType (oldFiles newFiles oldNeeded newNeeded : ProjectFiles) (node : NodeDiff)
    (path : String) : Option TypeOrInstance :=
  match asScene ((if node.isNew then newFiles else oldFiles) path) with
  | some instanced => instanced.getRootNodeType
  | none =>
      match asScene ((if node.isNew then oldNeeded else newNeeded) path) with
      | some instanced => instanced.getRootNodeType
      | none => node.nodeType

/-- A node that needs no scene is as it was, or has its final type already. -/
theorem collectInstance_cases
    (hcollect : collectInstance oldScene newScene oldFiles newFiles node =
      some (collected, needed)) :
    (instancedPath oldScene newScene node = none ∧ collected = node ∧ needed = none) ∨
      ∃ path, instancedPath oldScene newScene node = some path ∧
        ((∃ instanced, asScene ((if node.isNew then newFiles else oldFiles) path) =
            some instanced ∧ collected = { node with nodeType := instanced.getRootNodeType } ∧
            needed = none) ∨
          asScene ((if node.isNew then newFiles else oldFiles) path) = none ∧
            collected = node ∧ needed = some ⟨node.isNew, path⟩) := by
  unfold collectInstance at hcollect
  unfold instancedPath
  cases htype : node.nodeType with
  | none =>
      simp only [htype, Option.some.injEq, Prod.mk.injEq] at hcollect
      exact .inl ⟨rfl, hcollect.1.symm, hcollect.2.symm⟩
  | some typeOrInstance =>
      cases typeOrInstance with
      | ofType typeName =>
          simp only [htype, Option.some.injEq, Prod.mk.injEq] at hcollect
          exact .inl ⟨rfl, hcollect.1.symm, hcollect.2.symm⟩
      | ofInstance instanceId =>
          simp only [htype] at hcollect
          obtain ⟨scene, hscene, hresult⟩ := Option.map_eq_some_iff.mp hcollect
          simp only [hscene, Option.bind_some]
          cases hpath : scene.getExtResourcePath instanceId with
          | none =>
              simp only [hpath, Prod.mk.injEq] at hresult
              exact .inl ⟨rfl, hresult.1.symm, hresult.2.symm⟩
          | some path =>
              refine .inr ⟨path, rfl, ?_⟩
              simp only [hpath] at hresult
              cases hfile : asScene ((if node.isNew then newFiles else oldFiles) path) with
              | some instanced =>
                  simp only [hfile, Prod.mk.injEq] at hresult
                  exact .inl ⟨instanced, rfl, hresult.1.symm, hresult.2.symm⟩
              | none =>
                  simp only [hfile, Prod.mk.injEq] at hresult
                  exact .inr ⟨rfl, hresult.1.symm, hresult.2.symm⟩

/-- A node needs a scene that is no changed file. -/
theorem needed_eq_some_iff
    (hcollect : collectInstance oldScene newScene oldFiles newFiles node =
      some (collected, needed)) (isNew : Bool) (path : String) :
    needed = some ⟨isNew, path⟩ ↔ node.isNew = isNew ∧
      instancedPath oldScene newScene node = some path ∧
      asScene ((if node.isNew then newFiles else oldFiles) path) = none := by
  rcases collectInstance_cases hcollect with ⟨hnone, -, rfl⟩ | ⟨other, hother, hcases⟩
  · rw [hnone]
    exact iff_of_false nofun fun hpath => nomatch hpath.2.1
  rw [hother]
  rcases hcases with ⟨instanced, hfile, -, rfl⟩ | ⟨hfile, -, rfl⟩
  · refine iff_of_false nofun ?_
    rintro ⟨-, heq, hnone⟩
    obtain rfl := Option.some.inj heq
    exact nomatch hnone.symm.trans hfile
  · rw [Option.some.injEq, NeededInstance.mk.injEq, Option.some.injEq]
    constructor
    · rintro ⟨rfl, rfl⟩
      exact ⟨rfl, rfl, hfile⟩
    · rintro ⟨rfl, rfl, -⟩
      exact ⟨rfl, rfl⟩

/-- **The type that a node has in the end.** -/
theorem nodeType_resolveNode
    (hcollect : collectInstance oldScene newScene oldFiles newFiles node =
      some (collected, needed)) {path : String}
    (hpath : instancedPath oldScene newScene node = some path) :
    (resolveNode oldNeeded newNeeded needed collected).nodeType =
      finalType oldFiles newFiles oldNeeded newNeeded node path := by
  rcases collectInstance_cases hcollect with ⟨hnone, -, -⟩ | ⟨other, hother, hcases⟩
  · exact nomatch hpath.symm.trans hnone
  obtain rfl := Option.some.inj (hpath.symm.trans hother)
  rw [finalType]
  rcases hcases with ⟨instanced, hfile, rfl, rfl⟩ | ⟨hfile, rfl, rfl⟩
  · rw [hfile]
    rfl
  · rw [hfile, resolveNode]
    dsimp only
    split <;> rename_i hloaded <;> rw [hloaded]

end Node

/-! ## One diff -/

theorem option_mapM_eq_some_iff {α β : Type} {f : α → Option β} {items : List α}
    {results : List β} :
    items.mapM f = some results ↔
      List.Forall₂ (fun item result => f item = some result) items results := by
  induction items generalizing results with
  | nil =>
      rw [List.mapM_nil, List.forall₂_nil_left_iff]
      exact ⟨fun heq => (Option.some.inj heq).symm, fun heq => congrArg some heq.symm⟩
  | cons item items ih =>
      rw [List.mapM_cons, List.forall₂_cons_left_iff]
      constructor
      · intro hsome
        obtain ⟨first, hfirst, hrest⟩ := Option.bind_eq_some_iff.mp hsome
        obtain ⟨rest, hitems, hresult⟩ := Option.bind_eq_some_iff.mp hrest
        exact ⟨first, rest, hfirst, ih.mp hitems, (Option.some.inj hresult).symm⟩
      · rintro ⟨first, rest, hfirst, hitems, rfl⟩
        rw [hfirst, ih.mpr hitems]
        rfl

/-- What is needed is found under the position of its node. -/
theorem lookup_neededAt (nodes : List (NodeDiff × Option NeededInstance)) (idx : ℕ) :
    (neededAt nodes).lookup idx = nodes[idx]?.bind Prod.snd := by
  have hsublist : ((nodes.zipIdx.filterMap fun entry =>
      entry.1.2.map fun needed => (⟨entry.2, needed⟩ : Entry ℕ NeededInstance)).map
        Sigma.fst).Sublist (nodes.zipIdx.map Prod.snd) := by
    rw [List.map_filterMap]
    induction nodes.zipIdx with
    | nil => exact .slnil
    | cons entry entries ih =>
        obtain ⟨⟨node, needed⟩, position⟩ := entry
        cases needed with
        | none => exact ih.cons position
        | some needed => exact ih.cons_cons position
  have hnodup : ((nodes.zipIdx.filterMap fun entry =>
      entry.1.2.map fun needed => (⟨entry.2, needed⟩ : Entry ℕ NeededInstance)).map
        Sigma.fst).Nodup := by
    apply hsublist.nodup
    rw [List.zipIdx_map_snd]
    exact List.nodup_range'
  apply Option.ext
  intro needed
  rw [neededAt, HashMap.lookup_collect hnodup, List.mem_filterMap, Option.bind_eq_some_iff]
  constructor
  · rintro ⟨⟨node, position⟩, hentry, heq⟩
    obtain ⟨found, hfound, hsame⟩ := Option.map_eq_some_iff.mp heq
    obtain ⟨rfl, hvalue⟩ := Sigma.mk.inj_iff.mp hsame
    obtain rfl := eq_of_heq hvalue
    exact ⟨node, List.mem_zipIdx_iff_getElem?.mp hentry, hfound⟩
  · rintro ⟨node, hnode, hneeded⟩
    exact ⟨(node, idx), List.mem_zipIdx_iff_getElem?.mpr hnode, by rw [hneeded]; rfl⟩

/-- The nodes of a diff whose types were looked up one by one. -/
theorem resolveDiff_scene (oldNeeded newNeeded : ProjectFiles) (raw : SceneDiff)
    (nodes : List (NodeDiff × Option NeededInstance)) :
    resolveDiff oldNeeded newNeeded (neededAt nodes)
        (.scene { raw with changedNodes := nodes.map Prod.fst }) =
      .scene { raw with
        changedNodes := nodes.map fun node => resolveNode oldNeeded newNeeded node.2 node.1 } := by
  rw [resolveDiff]
  congr 2
  apply List.ext_getElem?
  intro idx
  rw [List.getElem?_mapIdx, List.getElem?_map, List.getElem?_map, lookup_neededAt]
  cases nodes[idx]? with
  | none => rfl
  | some node => rfl

/-- Where nothing is needed, nothing changes. -/
theorem resolveDiff_empty (oldNeeded newNeeded : ProjectFiles) (diff : Diff) :
    resolveDiff oldNeeded newNeeded ∅ diff = diff := by
  cases diff with
  | scene raw =>
      rw [resolveDiff]
      have hnodes : raw.changedNodes.mapIdx (fun idx node =>
          resolveNode oldNeeded newNeeded ((∅ : HashMap ℕ NeededInstance).lookup idx) node) =
            raw.changedNodes := by
        apply List.ext_getElem?
        intro idx
        rw [List.getElem?_mapIdx, Finmap.lookup_empty]
        cases raw.changedNodes[idx]? <;> rfl
      rw [hnodes]
  | textResource diff => rfl
  | binaryResource diff => rfl
  | text diff => rfl

/-! ## All diffs -/

namespace ProjectDiffState

/-- What is needed for the diffs that were pushed, under their numbers. -/
theorem lookup_foldl_push (fileDiffs : List FileDiff) :
    (fileDiffs.foldl push {}).diffs = fileDiffs.map FileDiff.diff ∧
      ∀ idx, (fileDiffs.foldl push {}).diffIdxToNeededMap.lookup idx =
        fileDiffs[idx]?.bind fun fileDiff =>
          if fileDiff.needed = ∅ then none else some fileDiff.needed := by
  induction fileDiffs using List.reverseRecOn with
  | nil => exact ⟨rfl, fun idx => rfl⟩
  | append_singleton fileDiffs fileDiff ih =>
      obtain ⟨hdiffs, htable⟩ := ih
      rw [List.foldl_append, List.foldl_cons, List.foldl_nil]
      refine ⟨?_, fun idx => ?_⟩
      · rw [push, hdiffs, List.map_append]
        rfl
      · have hlength : (fileDiffs.foldl push {}).diffs.length = fileDiffs.length := by
          rw [hdiffs, List.length_map]
        rw [push]
        dsimp only
        rw [hlength]
        rcases lt_trichotomy idx fileDiffs.length with hlt | rfl | hgt
        · rw [List.getElem?_append_left hlt, ← htable]
          split
          · rfl
          · rw [Finmap.lookup_insert_of_ne _ (Nat.ne_of_lt hlt)]
        · rw [List.getElem?_concat_length, Option.bind_some]
          split
          · rw [htable, List.getElem?_eq_none (le_refl _)]
            rfl
          · rw [Finmap.lookup_insert]
        · have hlong : (fileDiffs ++ [fileDiff]).length ≤ idx := by
            rw [List.length_append]
            exact hgt
          have hnone : (fileDiffs.foldl push {}).diffIdxToNeededMap.lookup idx = none := by
            rw [htable, List.getElem?_eq_none (Nat.le_of_lt hgt)]
            rfl
          rw [List.getElem?_eq_none hlong, Option.bind_none]
          split
          · exact hnone
          · rw [Finmap.lookup_insert_of_ne _ (Nat.ne_of_gt hgt)]
            exact hnone

/-- The scenes to load are those that some diff needs. -/
theorem mem_scenesToLoad_foldl_push (fileDiffs : List FileDiff) (path : String) :
    (path ∈ (fileDiffs.foldl push {}).oldScenesToLoad ↔
        ∃ fileDiff ∈ fileDiffs, path ∈ fileDiff.scenesToLoad false) ∧
      (path ∈ (fileDiffs.foldl push {}).newScenesToLoad ↔
        ∃ fileDiff ∈ fileDiffs, path ∈ fileDiff.scenesToLoad true) := by
  induction fileDiffs using List.reverseRecOn with
  | nil => simp
  | append_singleton fileDiffs fileDiff ih =>
      rw [List.foldl_append, List.foldl_cons, List.foldl_nil, push]
      dsimp only
      rw [Finset.mem_union, Finset.mem_union, ih.1, ih.2]
      simp [or_and_right, exists_or]

/-- **The table gives every diff the scenes that it needs.** -/
theorem resolve_foldl_push (fileDiffs : List FileDiff) (oldNeeded newNeeded : ProjectFiles) :
    (fileDiffs.foldl push {}).resolve oldNeeded newNeeded =
      fileDiffs.map fun fileDiff =>
        resolveDiff oldNeeded newNeeded fileDiff.needed fileDiff.diff := by
  obtain ⟨hdiffs, htable⟩ := lookup_foldl_push fileDiffs
  apply List.ext_getElem?
  intro idx
  rw [resolve, List.getElem?_mapIdx, hdiffs, List.getElem?_map, List.getElem?_map, htable]
  cases fileDiffs[idx]? with
  | none => rfl
  | some fileDiff =>
      rw [Option.map_some, Option.map_some, Option.map_some, Option.bind_some]
      by_cases hneeded : fileDiff.needed = ∅
      · rw [if_pos hneeded, hneeded, resolveDiff_empty]
      · rw [if_neg hneeded]

end ProjectDiffState

/-! ## The loop over the changed files -/

/-- What a ref has at a path. -/
def RefFiles.contentsAt {δ : Type} (ref : RefFiles δ) (path : String) :
    Option (FileContent GodotScene) :=
  ref.contents.bind fun contents => contents path

theorem RefFiles.filesAt_eq {δ : Type} {ref : RefFiles δ} {filters : Finset String}
    {files : ProjectFiles} (hfiles : ref.filesAt filters = some files) (path : String) :
    files path = if path ∈ filters then ref.contentsAt path else none := by
  rw [RefFiles.filesAt] at hfiles
  split at hfiles
  · nomatch hfiles
  · obtain ⟨contents, hcontents, rfl⟩ := Option.map_eq_some_iff.mp hfiles
    rw [RefFiles.contentsAt, hcontents]
    rfl

/-- Where nothing can be loaded, nothing is found. -/
theorem RefFiles.getD_filesAt {δ : Type} (ref : RefFiles δ) (filters : Finset String)
    (path : String) : ((ref.filesAt filters).getD fun _ => none) path =
      if path ∈ filters then ref.contentsAt path else none := by
  cases hfiles : ref.filesAt filters with
  | some files => exact RefFiles.filesAt_eq hfiles path
  | none =>
      rw [RefFiles.filesAt] at hfiles
      rw [Option.getD_none]
      split at hfiles
      · rename_i hempty
        rw [hempty, if_neg (Finset.notMem_empty path)]
      · rw [Option.map_eq_none_iff] at hfiles
        rw [RefFiles.contentsAt, hfiles, Option.bind_none, ite_self]

namespace ProjectDiffEnv

variable (env : ProjectDiffEnv)

/-- What one round gives: the diff of a file with the scenes that it needs. -/
def fileDiffOf (fuel : ℕ) (oldFiles newFiles : ProjectFiles) (changed : String × ChangeType) :
    Option (Option FileDiff) := do
  match ← (env.fileEnv changed.1).fileDiff fuel changed.1 changed.2 (oldFiles changed.1)
      (newFiles changed.1) with
  | none => return none
  | some diff =>
      let fileDiff ← collectInstances (asScene (oldFiles changed.1)) (asScene (newFiles changed.1))
        oldFiles newFiles diff
      return some fileDiff

variable {env} {fuel : ℕ} {oldFiles newFiles : ProjectFiles}

theorem diffFile_eq (state : ProjectDiffState) (changed : String × ChangeType) :
    env.diffFile fuel oldFiles newFiles state changed =
      (env.fileDiffOf fuel oldFiles newFiles changed).map fun found =>
        found.elim state state.push := by
  unfold diffFile fileDiffOf
  dsimp only
  cases (env.fileEnv changed.1).fileDiff fuel changed.1 changed.2 (oldFiles changed.1)
      (newFiles changed.1) with
  | none => rfl
  | some found =>
      cases found with
      | none => rfl
      | some diff =>
          simp only [Option.bind_eq_bind, Option.bind_some]
          cases collectInstances (asScene (oldFiles changed.1)) (asScene (newFiles changed.1))
            oldFiles newFiles diff <;> rfl

/-- **The loop pushes what its rounds give.** -/
theorem exists_fileDiffs {order : List (String × ChangeType)} {start finish : ProjectDiffState}
    (hloop : order.foldlM (env.diffFile fuel oldFiles newFiles) start = some finish) :
    (∀ changed ∈ order, env.fileDiffOf fuel oldFiles newFiles changed ≠ none) ∧
    ∃ fileDiffs : List FileDiff, finish = fileDiffs.foldl ProjectDiffState.push start ∧
      ∀ fileDiff, fileDiff ∈ fileDiffs ↔
        ∃ changed ∈ order, env.fileDiffOf fuel oldFiles newFiles changed = some (some fileDiff) := by
  induction order generalizing start with
  | nil =>
      rw [List.foldlM_nil] at hloop
      exact ⟨fun _ hchanged => (nomatch hchanged), [], (Option.some.inj hloop).symm, by simp⟩
  | cons changed order ih =>
      rw [List.foldlM_cons, diffFile_eq] at hloop
      obtain ⟨middle, hfirst, hrest⟩ := Option.bind_eq_some_iff.mp hloop
      obtain ⟨found, hfound, rfl⟩ := Option.map_eq_some_iff.mp hfirst
      obtain ⟨hall, fileDiffs, rfl, hmem⟩ := ih hrest
      refine ⟨List.forall_mem_cons.mpr ⟨by rw [hfound]; nofun, hall⟩, ?_⟩
      cases found with
      | none =>
          refine ⟨fileDiffs, rfl, fun fileDiff => ?_⟩
          rw [hmem, List.exists_mem_cons_iff, hfound]
          simp
      | some first =>
          refine ⟨first :: fileDiffs, rfl, fun fileDiff => ?_⟩
          rw [List.mem_cons, hmem, List.exists_mem_cons_iff, hfound]
          simp [eq_comm]

theorem path_getSceneDiff {diffEnv : DiffEnv} {path : String}
    {oldScene newScene : Option GodotScene} {diff : SceneDiff} (hdiff : diffEnv.getSceneDiff fuel path oldScene newScene = some diff) :
    diff.path = path := by
  obtain ⟨diffs, -, hresult⟩ := Option.bind_eq_some_iff.mp hdiff
  rw [← Option.some.inj hresult]

theorem path_getTextResourceDiff {diffEnv : DiffEnv} {path : String}
    {oldScene newScene : Option GodotScene} {diff : TextResourceDiff}
    (hdiff : diffEnv.getTextResourceDiff fuel path oldScene newScene = some diff) :
    diff.path = path := by
  obtain ⟨diffs, -, hrest⟩ := Option.bind_eq_some_iff.mp hdiff
  obtain ⟨main, -, hresult⟩ := Option.bind_eq_some_iff.mp hrest
  rw [← Option.some.inj hresult]

/-- A file has a diff under its own path. -/
theorem path_fileDiff {diffEnv : DiffEnv} {path : String} {changeType : ChangeType}
    {oldContent newContent : Option (FileContent GodotScene)} {diff : Diff}
    (hdiff : diffEnv.fileDiff fuel path changeType oldContent newContent = some (some diff)) :
    diff.path = path := by
  have hscene {oldScene newScene : Option GodotScene} {resourceType : String}
      (hresult : (if resourceType = "PackedScene" then
          (diffEnv.getSceneDiff fuel path oldScene newScene).map fun diff => some (Diff.scene diff)
        else (diffEnv.getTextResourceDiff fuel path oldScene newScene).map fun diff =>
          some (Diff.textResource diff)) = some (some diff)) : diff.path = path := by
    split at hresult
    · obtain ⟨found, hfound, heq⟩ := Option.map_eq_some_iff.mp hresult
      rw [← Option.some.inj heq]
      exact path_getSceneDiff hfound
    · obtain ⟨found, hfound, heq⟩ := Option.map_eq_some_iff.mp hresult
      rw [← Option.some.inj heq]
      exact path_getTextResourceDiff hfound
  unfold DiffEnv.fileDiff at hdiff
  split at hdiff
  case h_3 => exact hscene hdiff
  case h_4 => exact hscene hdiff
  case h_9 => nomatch hdiff
  all_goals
    rw [← Option.some.inj (Option.some.inj hdiff)]
    rfl

end ProjectDiffEnv

/-! ## The types in a project diff -/

theorem mem_scenesToLoad_iff {fileDiff : FileDiff} {isNew : Bool} {path : String} :
    path ∈ fileDiff.scenesToLoad isNew ↔
      ∃ idx, fileDiff.needed.lookup idx = some ⟨isNew, path⟩ := by
  simp only [FileDiff.scenesToLoad, Finset.mem_biUnion, Finmap.mem_keys]
  constructor
  · rintro ⟨idx, -, hpath⟩
    cases hneeded : fileDiff.needed.lookup idx with
    | none => simp [hneeded] at hpath
    | some needed =>
        obtain ⟨side, instancePath⟩ := needed
        by_cases hside : side = isNew
        · subst hside
          simp only [hneeded, Option.filter_some, decide_true, if_true, Option.elim_some,
            Finset.mem_singleton] at hpath
          exact ⟨idx, by rw [hneeded, hpath]⟩
        · simp only [hneeded, Option.filter_some, hside, decide_false, Bool.false_eq_true,
            if_false, Option.elim_none, Finset.notMem_empty] at hpath
  · rintro ⟨idx, hneeded⟩
    refine ⟨idx, Finmap.mem_of_lookup_eq_some hneeded, ?_⟩
    simp only [hneeded, Option.filter_some, decide_true, if_true, Option.elim_some,
      Finset.mem_singleton]

namespace ProjectDiffEnv

section Types

variable {δ : Type} (env : ProjectDiffEnv) (fuel : ℕ) (before after : RefFiles δ)

/-- The changed files come in this order, each once. -/
structure Iterates [DecidableEq δ] : Prop where
  nodup : (env.order.map Prod.fst).Nodup
  mem_iff : ∀ changed, before.changedBetween after = some changed →
    ∀ path changeType, (path, changeType) ∈ env.order ↔ changed path = some changeType

/-- A path is among the changed files. -/
def Changed (path : String) : Prop := path ∈ env.order.map Prod.fst

/-- The diff of a changed scene, as it is before the types of instanced nodes are looked up. -/
def SceneDiffOf (file : String) (raw : SceneDiff) : Prop :=
  ∃ changeType, (file, changeType) ∈ env.order ∧
    (env.fileEnv file).fileDiff fuel file changeType (before.contentsAt file)
      (after.contentsAt file) = some (some (.scene raw))

/-- The scene at a path, in the new version or in the old one. -/
def sceneAt (before after : RefFiles δ) (isNew : Bool) (path : String) : Option GodotScene :=
  asScene ((if isNew then after else before).contentsAt path)

/-- The scene that a node of a changed file instances, in the version of the node. -/
def instancedAt (before after : RefFiles δ) (file : String) (node : NodeDiff) : Option String :=
  instancedPath (sceneAt before after false file) (sceneAt before after true file) node

/-- A path is loaded in one version: a node of that version instances the scene there, and it is
not among the changed files. -/
def Loaded (isNew : Bool) (path : String) : Prop :=
  ∃ file raw, env.SceneDiffOf fuel before after file raw ∧ ∃ node ∈ raw.changedNodes,
    node.isNew = isNew ∧ instancedAt before after file node = some path ∧
      ¬ (env.Changed path ∧ sceneAt before after isNew path ≠ none)

/-- The type of a node is that of the root of the scene that it instances, if that scene is
there. -/
def RightType (before after : RefFiles δ) (file : String) (node final : NodeDiff) : Prop :=
  ∀ path scene, instancedAt before after file node = some path →
    sceneAt before after node.isNew path = some scene → final.nodeType = scene.getRootNodeType

/-- Every changed scene has a diff in which the types of all nodes are right. -/
def TypesRight (result : ProjectDiff) : Prop :=
  ∀ file raw, env.SceneDiffOf fuel before after file raw →
    ∃ final, .scene final ∈ result.fileDiffs ∧ final.path = file ∧
      List.Forall₂ (RightType before after file) raw.changedNodes final.changedNodes

/-- The scene that a node instances is loaded in the other version. -/
def FoundElsewhere (node : NodeDiff) (path : String) (scene : GodotScene) : Prop :=
  env.Loaded fuel before after (!node.isNew) path ∧
    sceneAt before after (!node.isNew) path = some scene

/-- The scene that a node instances is among the changed files, or another one has the same root
type: that in the other version, if it is loaded there, and otherwise the type of the node. -/
def TypeFound (file : String) (node : NodeDiff) : Prop :=
  ∀ path scene, instancedAt before after file node = some path →
    sceneAt before after node.isNew path = some scene →
      env.Changed path ∨
      (∃ other, env.FoundElsewhere fuel before after node path other ∧
        other.getRootNodeType = scene.getRootNodeType) ∨
      (∀ other, ¬ env.FoundElsewhere fuel before after node path other) ∧
        node.nodeType = scene.getRootNodeType

end Types

variable {δ : Type} {env : ProjectDiffEnv} {fuel : ℕ} {before after : RefFiles δ}
  {oldFiles newFiles : ProjectFiles}

/-- The files that were read are those of the refs, as far as they changed. -/
structure ReadsChanged (env : ProjectDiffEnv) (before after : RefFiles δ)
    (oldFiles newFiles : ProjectFiles) : Prop where
  old : ∀ path, oldFiles path =
    if path ∈ (env.order.map Prod.fst).toFinset then before.contentsAt path else none
  new : ∀ path, newFiles path =
    if path ∈ (env.order.map Prod.fst).toFinset then after.contentsAt path else none

namespace ReadsChanged

variable (hreads : ReadsChanged env before after oldFiles newFiles)
include hreads

theorem of_changed {path : String} (hchanged : env.Changed path) :
    oldFiles path = before.contentsAt path ∧ newFiles path = after.contentsAt path := by
  rw [hreads.old, hreads.new, if_pos (List.mem_toFinset.mpr hchanged),
    if_pos (List.mem_toFinset.mpr hchanged)]
  exact ⟨rfl, rfl⟩

theorem asScene_eq (isNew : Bool) (path : String) :
    asScene ((if isNew then newFiles else oldFiles) path) = none ↔
      ¬ (env.Changed path ∧ sceneAt before after isNew path ≠ none) := by
  by_cases hchanged : env.Changed path
  · obtain ⟨hold, hnew⟩ := hreads.of_changed hchanged
    rw [and_iff_right hchanged, not_not, sceneAt]
    cases isNew
    · rw [if_neg Bool.false_ne_true, if_neg Bool.false_ne_true, hold]
    · rw [if_pos rfl, if_pos rfl, hnew]
  · refine iff_of_true ?_ fun hboth => hchanged hboth.1
    have hnone := fun hmem => hchanged (List.mem_toFinset.mp hmem)
    cases isNew
    · rw [if_neg Bool.false_ne_true, hreads.old, if_neg hnone]
      rfl
    · rw [if_pos rfl, hreads.new, if_neg hnone]
      rfl

/-- The round of a changed scene. -/
theorem fileDiffOf_eq {file : String} {raw : SceneDiff}
    (hraw : env.SceneDiffOf fuel before after file raw) :
    ∃ changeType, (file, changeType) ∈ env.order ∧
      env.fileDiffOf fuel oldFiles newFiles (file, changeType) =
        (collectInstances (sceneAt before after false file) (sceneAt before after true file)
          oldFiles newFiles (.scene raw)).map some := by
  obtain ⟨changeType, hmem, hdiff⟩ := hraw
  obtain ⟨hold, hnew⟩ := hreads.of_changed (List.mem_map_of_mem hmem)
  refine ⟨changeType, hmem, ?_⟩
  unfold fileDiffOf
  dsimp only at hold hnew ⊢
  rw [hold, hnew, hdiff]
  simp only [Option.bind_eq_bind, Option.bind_some]
  exact (Option.map_eq_bind ..).symm

end ReadsChanged

/-- The nodes of a scene diff are collected one by one. -/
theorem exists_nodes_of_collectInstances {oldScene newScene : Option GodotScene} {raw : SceneDiff}
    {fileDiff : FileDiff}
    (hcollect : collectInstances oldScene newScene oldFiles newFiles (.scene raw) =
      some fileDiff) :
    ∃ nodes, List.Forall₂ (fun node result =>
        collectInstance oldScene newScene oldFiles newFiles node = some result)
        raw.changedNodes nodes ∧
      fileDiff = ⟨.scene { raw with changedNodes := nodes.map Prod.fst }, neededAt nodes⟩ := by
  obtain ⟨nodes, hnodes, hresult⟩ := Option.bind_eq_some_iff.mp hcollect
  exact ⟨nodes, option_mapM_eq_some_iff.mp hnodes, (Option.some.inj hresult).symm⟩

/-- Related lists are related position by position. -/
theorem forall₂_getElem? {α β : Type} {related : α → β → Prop} {items : List α} {results : List β}
    (hall : List.Forall₂ related items results) (idx : ℕ) :
    Option.Rel related items[idx]? results[idx]? := by
  induction hall generalizing idx with
  | nil => exact .none
  | cons hhead _ ih =>
      cases idx with
      | zero => exact .some hhead
      | succ idx => exact ih idx

/-- Lists of the same length are related as their positions are. -/
theorem forall₂_map_right_iff {α β γ : Type} {first : α → β → Prop} {related : α → γ → Prop}
    {right : α → Prop} {resolve : β → γ} {items : List α} {results : List β}
    (hall : List.Forall₂ first items results)
    (hright : ∀ item ∈ items, ∀ result, first item result →
      (related item (resolve result) ↔ right item)) :
    List.Forall₂ related items (results.map resolve) ↔ ∀ item ∈ items, right item := by
  induction hall with
  | nil => exact iff_of_true .nil fun _ hitem => nomatch hitem
  | cons hhead _ ih =>
      rw [List.map_cons, List.forall₂_cons, List.forall_mem_cons]
      rw [hright _ List.mem_cons_self _ hhead, ih fun item hitem =>
        hright item (List.mem_cons_of_mem _ hitem)]

/-- What a scene diff needs: the scenes of its nodes that are no changed files. -/
theorem lookup_neededAt_iff {oldScene newScene : Option GodotScene} {raw : SceneDiff}
    {nodes : List (NodeDiff × Option NeededInstance)}
    (hnodes : List.Forall₂ (fun node result =>
      collectInstance oldScene newScene oldFiles newFiles node = some result)
      raw.changedNodes nodes) (isNew : Bool) (path : String) :
    (∃ idx, (neededAt nodes).lookup idx = some ⟨isNew, path⟩) ↔
      ∃ node ∈ raw.changedNodes, node.isNew = isNew ∧
        instancedPath oldScene newScene node = some path ∧
        asScene ((if isNew then newFiles else oldFiles) path) = none := by
  constructor
  · rintro ⟨idx, hneeded⟩
    rw [lookup_neededAt] at hneeded
    obtain ⟨⟨collected, needed⟩, hresult, rfl⟩ := Option.bind_eq_some_iff.mp hneeded
    have hrel := forall₂_getElem? hnodes idx
    rw [hresult] at hrel
    cases hnode : raw.changedNodes[idx]? with
    | none =>
        rw [hnode] at hrel
        nomatch hrel
    | some node =>
        rw [hnode] at hrel
        obtain ⟨hcollect⟩ := hrel
        obtain ⟨rfl, hpath, hfile⟩ := (needed_eq_some_iff hcollect isNew path).mp rfl
        exact ⟨node, List.mem_of_getElem? hnode, rfl, hpath, hfile⟩
  · rintro ⟨node, hmem, rfl, hpath, hfile⟩
    obtain ⟨idx, hnode⟩ := List.mem_iff_getElem?.mp hmem
    have hrel := forall₂_getElem? hnodes idx
    rw [hnode] at hrel
    cases hresult : nodes[idx]? with
    | none =>
        rw [hresult] at hrel
        nomatch hrel
    | some result =>
        rw [hresult] at hrel
        obtain ⟨hcollect⟩ := hrel
        refine ⟨idx, ?_⟩
        rw [lookup_neededAt, hresult, Option.bind_some]
        exact (needed_eq_some_iff hcollect node.isNew path).mpr ⟨rfl, hpath, hfile⟩

/-- **The scenes that are loaded are those that a node needs in its version.** -/
theorem loaded_iff (hreads : ReadsChanged env before after oldFiles newFiles)
    {fileDiffs : List FileDiff}
    (hall : ∀ changed ∈ env.order, env.fileDiffOf fuel oldFiles newFiles changed ≠ none)
    (hmem : ∀ fileDiff, fileDiff ∈ fileDiffs ↔ ∃ changed ∈ env.order,
      env.fileDiffOf fuel oldFiles newFiles changed = some (some fileDiff))
    (isNew : Bool) (path : String) :
    (∃ fileDiff ∈ fileDiffs, path ∈ fileDiff.scenesToLoad isNew) ↔
      env.Loaded fuel before after isNew path := by
  constructor
  · rintro ⟨fileDiff, hfileDiff, hpath⟩
    obtain ⟨⟨file, changeType⟩, hchanged, hround⟩ := (hmem fileDiff).mp hfileDiff
    obtain ⟨hold, hnew⟩ := hreads.of_changed (List.mem_map_of_mem hchanged)
    obtain ⟨idx, hneeded⟩ := mem_scenesToLoad_iff.mp hpath
    unfold fileDiffOf at hround
    obtain ⟨found, hfound, hrest⟩ := Option.bind_eq_some_iff.mp hround
    cases found with
    | none => nomatch hrest
    | some diff =>
        obtain ⟨collected, hcollect, hresult⟩ := Option.bind_eq_some_iff.mp hrest
        obtain rfl := Option.some.inj (Option.some.inj hresult)
        have hempty (heq : collected = ⟨diff, ∅⟩) : False := by
          rw [heq] at hneeded
          simp at hneeded
        cases diff with
        | textResource diff => exact (hempty (Option.some.inj hcollect).symm).elim
        | binaryResource diff => exact (hempty (Option.some.inj hcollect).symm).elim
        | text diff => exact (hempty (Option.some.inj hcollect).symm).elim
        | scene raw =>
            dsimp only at hold hnew hfound hcollect
            rw [hold, hnew] at hfound hcollect
            obtain ⟨nodes, hnodes, rfl⟩ := exists_nodes_of_collectInstances hcollect
            obtain ⟨node, hnode, hside, hinstanced, hfile⟩ :=
              (lookup_neededAt_iff hnodes isNew path).mp ⟨idx, hneeded⟩
            refine ⟨file, raw, ⟨changeType, hchanged, hfound⟩, node, hnode, hside, hinstanced, ?_⟩
            exact (hreads.asScene_eq isNew path).mp hfile
  · rintro ⟨file, raw, hraw, node, hnode, hside, hinstanced, hunchanged⟩
    obtain ⟨changeType, hchanged, hround⟩ := hreads.fileDiffOf_eq hraw
    have hsome := hall _ hchanged
    rw [hround, ne_eq, Option.map_eq_none_iff] at hsome
    obtain ⟨fileDiff, hcollect⟩ := Option.ne_none_iff_exists'.mp hsome
    rw [hcollect, Option.map_some] at hround
    refine ⟨fileDiff, (hmem fileDiff).mpr ⟨_, hchanged, hround⟩, mem_scenesToLoad_iff.mpr ?_⟩
    obtain ⟨nodes, hnodes, rfl⟩ := exists_nodes_of_collectInstances hcollect
    refine (lookup_neededAt_iff hnodes isNew path).mpr ⟨node, hnode, hside, hinstanced, ?_⟩
    exact (hreads.asScene_eq isNew path).mpr hunchanged

/-- A node has the right type exactly if it is found. -/
theorem finalType_eq_iff (hreads : ReadsChanged env before after oldFiles newFiles)
    {oldNeeded newNeeded : ProjectFiles} {node : NodeDiff} {path : String} {scene : GodotScene}
    (hother : ∀ other,
      asScene ((if node.isNew then oldNeeded else newNeeded) path) = some other ↔
        env.FoundElsewhere fuel before after node path other)
    (hscene : sceneAt before after node.isNew path = some scene) :
    finalType oldFiles newFiles oldNeeded newNeeded node path = scene.getRootNodeType ↔
      env.Changed path ∨
      (∃ other, env.FoundElsewhere fuel before after node path other ∧
        other.getRootNodeType = scene.getRootNodeType) ∨
      (∀ other, ¬ env.FoundElsewhere fuel before after node path other) ∧
        node.nodeType = scene.getRootNodeType := by
  rw [finalType]
  by_cases hchanged : env.Changed path
  · obtain ⟨hold, hnew⟩ := hreads.of_changed hchanged
    have hfile : asScene ((if node.isNew then newFiles else oldFiles) path) = some scene := by
      rw [← hscene, sceneAt]
      cases node.isNew
      · rw [if_neg Bool.false_ne_true, if_neg Bool.false_ne_true, hold]
      · rw [if_pos rfl, if_pos rfl, hnew]
    rw [hfile]
    exact iff_of_true rfl (.inl hchanged)
  · rw [(hreads.asScene_eq node.isNew path).mpr fun hboth => hchanged hboth.1]
    rw [or_iff_right hchanged]
    dsimp only
    cases hfound : asScene ((if node.isNew then oldNeeded else newNeeded) path) with
    | some other =>
        have helsewhere := (hother other).mp hfound
        constructor
        · intro hsame
          exact .inl ⟨other, helsewhere, hsame⟩
        · rintro (⟨found, hfoundElsewhere, hsame⟩ | ⟨hnone, -⟩)
          · obtain rfl := Option.some.inj (hfound.symm.trans ((hother found).mpr hfoundElsewhere))
            exact hsame
          · exact absurd helsewhere (hnone other)
    | none =>
        have hnone (other : GodotScene) : ¬ env.FoundElsewhere fuel before after node path other :=
          fun helsewhere => nomatch hfound.symm.trans ((hother other).mpr helsewhere)
        constructor
        · intro hsame
          exact .inr ⟨hnone, hsame⟩
        · rintro (⟨other, helsewhere, -⟩ | ⟨-, hsame⟩)
          · exact absurd helsewhere (hnone other)
          · exact hsame

theorem path_resolveDiff (oldNeeded newNeeded : ProjectFiles) (needed : HashMap ℕ NeededInstance)
    (diff : Diff) : (resolveDiff oldNeeded newNeeded needed diff).path = diff.path := by
  cases diff <;> rfl

theorem path_fileDiffOf {changed : String × ChangeType} {fileDiff : FileDiff}
    (hround : env.fileDiffOf fuel oldFiles newFiles changed = some (some fileDiff)) :
    fileDiff.diff.path = changed.1 := by
  unfold fileDiffOf at hround
  obtain ⟨found, hfound, hrest⟩ := Option.bind_eq_some_iff.mp hround
  cases found with
  | none => nomatch hrest
  | some diff =>
      obtain ⟨collected, hcollect, hresult⟩ := Option.bind_eq_some_iff.mp hrest
      obtain rfl := Option.some.inj (Option.some.inj hresult)
      rw [← path_fileDiff hfound]
      cases diff with
      | scene raw =>
          obtain ⟨nodes, -, rfl⟩ := exists_nodes_of_collectInstances hcollect
          rfl
      | textResource diff => rw [← Option.some.inj hcollect]
      | binaryResource diff => rw [← Option.some.inj hcollect]
      | text diff => rw [← Option.some.inj hcollect]

/-- What a run that returns a diff went through. -/
theorem exists_of_getDiff {ρ : Type} [DecidableEq ρ] [DecidableEq δ] {files : ρ → RefFiles δ}
    {before after : ρ} {result : ProjectDiff}
    (hdiff : env.getDiff fuel files before after = some (some result)) :
    ∃ oldFiles newFiles state,
      ReadsChanged env (files before) (files after) oldFiles newFiles ∧
      env.order.foldlM (env.diffFile fuel oldFiles newFiles) {} = some state ∧
      result.fileDiffs = sortByKey Diff.path (state.resolve
        (((files before).filesAt state.oldScenesToLoad).getD fun _ => none)
        (((files after).filesAt state.newScenesToLoad).getD fun _ => none)) := by
  rw [getDiff] at hdiff
  split at hdiff
  · nomatch hdiff
  split at hdiff
  · nomatch hdiff
  dsimp only at hdiff
  split at hdiff
  · nomatch hdiff
  split at hdiff
  · rename_i newFiles oldFiles hnew hold
    obtain ⟨found, hfound, heq⟩ := Option.map_eq_some_iff.mp hdiff
    obtain rfl := Option.some.inj heq
    obtain ⟨state, hstate, hresult⟩ := Option.bind_eq_some_iff.mp hfound
    obtain rfl := Option.some.inj hresult
    exact ⟨oldFiles, newFiles, state,
      ⟨RefFiles.filesAt_eq hold, RefFiles.filesAt_eq hnew⟩, hstate, rfl⟩
  · nomatch hdiff

/-- **When the types of instanced nodes are right**: for any two refs, any files at them and any
orders, in the diff that `get_diff` returns, if and only if every scene that a node instances and
that is there is among the changed files, or happens to have the root type that is found in its
place. -/
theorem typesRight_iff {ρ : Type} [DecidableEq ρ] [DecidableEq δ] {files : ρ → RefFiles δ}
    {before after : ρ} {result : ProjectDiff}
    (hiterates : env.Iterates (files before) (files after))
    (hdiff : env.getDiff fuel files before after = some (some result)) :
    env.TypesRight fuel (files before) (files after) result ↔
      ∀ file raw, env.SceneDiffOf fuel (files before) (files after) file raw →
        ∀ node ∈ raw.changedNodes, env.TypeFound fuel (files before) (files after) file node := by
  obtain ⟨oldFiles, newFiles, state, hreads, hloop, hresult⟩ := exists_of_getDiff hdiff
  obtain ⟨hall, fileDiffs, hstate, hmem⟩ := exists_fileDiffs hloop
  obtain ⟨holdLoaded, hnewLoaded⟩ :
      (∀ path, path ∈ state.oldScenesToLoad ↔
        env.Loaded fuel (files before) (files after) false path) ∧
      ∀ path, path ∈ state.newScenesToLoad ↔
        env.Loaded fuel (files before) (files after) true path := by
    have hloaded := loaded_iff hreads hall hmem
    refine ⟨fun path => ?_, fun path => ?_⟩
    · rw [hstate, (ProjectDiffState.mem_scenesToLoad_foldl_push fileDiffs path).1]
      exact hloaded false path
    · rw [hstate, (ProjectDiffState.mem_scenesToLoad_foldl_push fileDiffs path).2]
      exact hloaded true path
  generalize hold : (((files before).filesAt state.oldScenesToLoad).getD fun _ => none) = oldNeeded
    at hresult
  generalize hnew : (((files after).filesAt state.newScenesToLoad).getD fun _ => none) = newNeeded
    at hresult
  have hother (node : NodeDiff) (path : String) (other : GodotScene) :
      asScene ((if node.isNew then oldNeeded else newNeeded) path) = some other ↔
        env.FoundElsewhere fuel (files before) (files after) node path other := by
    rw [FoundElsewhere, sceneAt, ← hold, ← hnew]
    cases node.isNew
    · rw [if_neg Bool.false_ne_true, RefFiles.getD_filesAt, Bool.not_false, if_pos rfl,
        ← hnewLoaded]
      split
      · rename_i hpath
        rw [and_iff_right hpath]
      · rename_i hpath
        exact iff_of_false nofun fun hboth => hpath hboth.1
    · rw [if_pos rfl, RefFiles.getD_filesAt, Bool.not_true, if_neg Bool.false_ne_true,
        ← holdLoaded]
      split
      · rename_i hpath
        rw [and_iff_right hpath]
      · rename_i hpath
        exact iff_of_false nofun fun hboth => hpath hboth.1
  have hdiffs (diff : Diff) : diff ∈ result.fileDiffs ↔ ∃ fileDiff ∈ fileDiffs,
      resolveDiff oldNeeded newNeeded fileDiff.needed fileDiff.diff = diff := by
    rw [hresult, (sortByKey_perm _ _).mem_iff, hstate, ProjectDiffState.resolve_foldl_push,
      List.mem_map]
  refine forall_congr' fun file => forall_congr' fun raw => forall_congr' fun hraw => ?_
  obtain ⟨changeType, hchanged, hround⟩ := hreads.fileDiffOf_eq hraw
  have hsome := hall _ hchanged
  rw [hround, ne_eq, Option.map_eq_none_iff] at hsome
  obtain ⟨fileDiff, hcollect⟩ := Option.ne_none_iff_exists'.mp hsome
  rw [hcollect, Option.map_some] at hround
  obtain ⟨nodes, hnodes, hfileDiff⟩ := exists_nodes_of_collectInstances hcollect
  have hresolved : resolveDiff oldNeeded newNeeded fileDiff.needed fileDiff.diff =
      .scene { raw with
        changedNodes := nodes.map fun node => resolveNode oldNeeded newNeeded node.2 node.1 } := by
    rw [hfileDiff]
    exact resolveDiff_scene oldNeeded newNeeded raw nodes
  have hpath : raw.path = file := by
    obtain ⟨_, -, hfile⟩ := hraw
    exact path_fileDiff hfile
  have htypes : List.Forall₂ (RightType (files before) (files after) file) raw.changedNodes
      (nodes.map fun node => resolveNode oldNeeded newNeeded node.2 node.1) ↔
        ∀ node ∈ raw.changedNodes, env.TypeFound fuel (files before) (files after) file node := by
    apply forall₂_map_right_iff hnodes
    intro node _ result hresult
    refine forall_congr' fun path => forall_congr' fun scene => forall_congr' fun hinstanced =>
      forall_congr' fun hscene => ?_
    rw [nodeType_resolveNode hresult hinstanced]
    exact finalType_eq_iff hreads (hother node path) hscene
  rw [← htypes]
  constructor
  · rintro ⟨final, hfinal, hfinalPath, hright⟩
    -- no file comes twice, so that the final diff under this path is the resolved one
    obtain ⟨found, hfound, heq⟩ := (hdiffs _).mp hfinal
    obtain ⟨other, hotherChanged, hotherRound⟩ := (hmem found).mp hfound
    have hsame : other.1 = file := by
      rw [← path_fileDiffOf hotherRound, ← path_resolveDiff oldNeeded newNeeded found.needed, heq]
      exact hfinalPath
    obtain rfl : other = (file, changeType) :=
      List.inj_on_of_nodup_map hiterates.nodup hotherChanged hchanged hsame
    obtain rfl : fileDiff = found :=
      Option.some.inj (Option.some.inj (hround.symm.trans hotherRound))
    obtain rfl := Diff.scene.inj (hresolved.symm.trans heq)
    exact hright
  · intro hright
    refine ⟨_, (hdiffs _).mpr ⟨fileDiff, (hmem fileDiff).mpr ⟨_, hchanged, hround⟩, hresolved⟩,
      hpath, hright⟩

end ProjectDiffEnv

/-! ## An instance of a scene that did not change -/

/-- A scene whose root is of one type, with at most one external scene. -/
def rootScene (typeOrInstance : TypeOrInstance)
    (extResources : HashMap String ExternalResourceNode) : GodotScene where
  loadSteps := 1
  format := 3
  uid := "uid://scene"
  scriptClass := none
  resourceType := "PackedScene"
  rootNodeId := some ⟨7, none⟩
  extResources := extResources
  subResources := ∅
  connections := ∅
  editableInstances := []
  mainResource := none
  nodes := Finmap.singleton ⟨7, none⟩
    { GodotNode.bare ⟨7, none⟩ "Root" none [] with typeOrInstance := some typeOrInstance }

/-- A scene that is instanced. -/
def instancedScene : GodotScene := rootScene (.ofType "Node2D") ∅

/-- A scene whose root is an instance of the other. -/
def instancingScene : GodotScene :=
  rootScene (.ofInstance "ExtResource(\"1\")")
    (Finmap.singleton "1" ⟨"PackedScene", none, "res://b.tscn", "1", 0⟩)

/-- Before, only the instanced scene is there; after, also the one that instances it. -/
def instancedRefs : Bool → RefFiles ℕ
  | false => {
      valid := true
      index := some fun path => if path = "res://b.tscn" then some 1 else none
      contents := some fun path =>
        if path = "res://b.tscn" then some (.scene instancedScene) else none }
  | true => {
      valid := true
      index := some fun path =>
        if path = "res://b.tscn" then some 1
        else if path = "res://a.tscn" then some 2 else none
      contents := some fun path =>
        if path = "res://b.tscn" then some (.scene instancedScene)
        else if path = "res://a.tscn" then some (.scene instancingScene) else none }

/-- The second scene is the only file that changed. -/
def instancedEnv : ProjectDiffEnv where
  order := [("res://a.tscn", .created)]
  fileEnv _ := {
    before := some "backstitch-branch+1"
    after := some "backstitch-branch+2"
    propOrders := fun _ => []
    nodeIds := [⟨7, none⟩]
    subResourceIds := []
    nodeProps := fun _ => []
    subResourceProps := fun _ => []
    mainResourceProps := [] }

/-- The diff of the second scene, in which the root has no type. -/
def leftDiff : SceneDiff where
  path := "res://a.tscn"
  changeType := .created
  changedNodes := [⟨.created, ".", some (.ofInstance "ExtResource(\"1\")"), ∅⟩]

theorem getDiff_instanced :
    instancedEnv.getDiff 1 instancedRefs false true = some (some ⟨[.scene leftDiff]⟩) := by
  rfl

theorem iterates_instanced :
    instancedEnv.Iterates (instancedRefs false) (instancedRefs true) where
  nodup := by decide
  mem_iff changed hchanged path changeType := by
    obtain rfl := Option.some.inj hchanged
    rw [instancedEnv, List.mem_singleton, Prod.mk.injEq]
    dsimp only [getFileChanges]
    rw [String.ofList_toList]
    by_cases hinstanced : path = "res://b.tscn"
    · subst hinstanced
      simp
    · by_cases hinstancing : path = "res://a.tscn"
      · subst hinstancing
        simp [eq_comm]
      · simp [hinstanced, hinstancing]

/-- Before, no scene is there; after, both are. -/
def createdRefs : Bool → RefFiles ℕ
  | false => { valid := true, index := some fun _ => none, contents := some fun _ => none }
  | true => instancedRefs true

/-- Both scenes changed. -/
def createdEnv : ProjectDiffEnv :=
  { instancedEnv with order := [("res://a.tscn", .created), ("res://b.tscn", .created)] }

/-- The diffs of both scenes, in which both roots have their type. -/
def createdDiff : ProjectDiff where
  fileDiffs := [
    .scene { leftDiff with changedNodes := [⟨.created, ".", some (.ofType "Node2D"), ∅⟩] },
    .scene ⟨"res://b.tscn", .created, [⟨.created, ".", some (.ofType "Node2D"), ∅⟩]⟩]

theorem iterates_created : createdEnv.Iterates (createdRefs false) (createdRefs true) where
  nodup := by decide
  mem_iff changed hchanged path changeType := by
    obtain rfl := Option.some.inj hchanged
    rw [createdEnv, List.mem_cons, List.mem_singleton, Prod.mk.injEq, Prod.mk.injEq]
    dsimp only [getFileChanges]
    rw [String.ofList_toList]
    by_cases hinstanced : path = "res://b.tscn"
    · subst hinstanced
      simp [eq_comm]
    · by_cases hinstancing : path = "res://a.tscn"
      · subst hinstancing
        simp [eq_comm]
      · simp [hinstanced, hinstancing]

theorem getDiff_created :
    createdEnv.getDiff 1 createdRefs false true = some (some createdDiff) := by
  rfl

/-- **A node that instances a scene that changed with it has the type of its root.** -/
theorem typesRight_created :
    createdEnv.TypesRight 1 (createdRefs false) (createdRefs true) createdDiff := by
  refine (ProjectDiffEnv.typesRight_iff iterates_created getDiff_created).mpr ?_
  intro file raw hraw node hnode path scene hinstanced hscene
  left
  show path ∈ ["res://a.tscn", "res://b.tscn"]
  cases hnew : node.isNew with
  | false =>
      rw [hnew] at hscene
      cases hscene
  | true =>
      rw [hnew] at hscene
      by_contra hpath
      rw [List.mem_cons, List.mem_singleton, not_or] at hpath
      have hnone :
          ProjectDiffEnv.sceneAt (createdRefs false) (createdRefs true) true path = none := by
        simp [ProjectDiffEnv.sceneAt, createdRefs, instancedRefs, RefFiles.contentsAt, asScene,
          hpath]
      rw [hnone] at hscene
      cases hscene

/-- **A node that instances a scene that did not change is left without a type.** -/
theorem not_typesRight_instanced :
    instancedEnv.Iterates (instancedRefs false) (instancedRefs true) ∧
      instancedEnv.getDiff 1 instancedRefs false true = some (some ⟨[.scene leftDiff]⟩) ∧
      ¬ instancedEnv.TypesRight 1 (instancedRefs false) (instancedRefs true)
        ⟨[.scene leftDiff]⟩ := by
  refine ⟨iterates_instanced, getDiff_instanced, fun hright => ?_⟩
  have hraw : instancedEnv.SceneDiffOf 1 (instancedRefs false) (instancedRefs true)
      "res://a.tscn" leftDiff := ⟨.created, List.mem_cons_self, by rfl⟩
  obtain ⟨final, hfinal, -, htypes⟩ := hright _ _ hraw
  obtain rfl := Diff.scene.inj (List.mem_singleton.mp hfinal)
  have hroot := (List.forall₂_cons.mp htypes).1 "res://b.tscn" instancedScene (by rfl) (by rfl)
  exact absurd hroot (by decide)

end Backstitch
