/-
# Nodes in a document

A document keeps the nodes of a scene in a map with string keys.
`reconcile_nodes` writes that map; `hydrate_nodes` reads it back and then renames
nodes until no two listed children of one parent look alike.

The renaming visits the ids in the iteration order of a hash map.  Its loop has
no bound in the source, so it takes fuel; each visit refines the renaming of
`Library.Freshen`, by which a hydration is a function of the stored map exactly
when its names are settled.
-/

import Backstitch.Library.Freshen
import Backstitch.Parser.Scene

namespace Backstitch

/-! ## The next name -/

/-- The code points of the decimal zeros; `\d` matches each and the nine after it. -/
def decimalZeros : List ℕ :=
  [0x30, 0x660, 0x6F0, 0x7C0, 0x966, 0x9E6, 0xA66, 0xAE6, 0xB66, 0xBE6, 0xC66, 0xCE6, 0xD66,
    0xDE6, 0xE50, 0xED0, 0xF20, 0x1040, 0x1090, 0x17E0, 0x1810, 0x1946, 0x19D0, 0x1A80,
    0x1A90, 0x1B50, 0x1BB0, 0x1C40, 0x1C50, 0xA620, 0xA8D0, 0xA900, 0xA9D0, 0xA9F0, 0xAA50,
    0xABF0, 0xFF10, 0x104A0, 0x10D30, 0x10D40, 0x11066, 0x110F0, 0x11136, 0x111D0, 0x112F0,
    0x11450, 0x114D0, 0x11650, 0x116C0, 0x116D0, 0x116DA, 0x11730, 0x118E0, 0x11950,
    0x11BF0, 0x11C50, 0x11D50, 0x11DA0, 0x11F50, 0x16130, 0x16A60, 0x16AC0, 0x16B50,
    0x16D70, 0x1CCF0, 0x1D7CE, 0x1D7D8, 0x1D7E2, 0x1D7EC, 0x1D7F6, 0x1E140, 0x1E2F0,
    0x1E4F0, 0x1E5F1, 0x1E950, 0x1FBF0]

def isDecimalDigit (char : Char) : Bool :=
  decimalZeros.any fun first => first ≤ char.toNat && char.toNat ≤ first + 9

/-- The two groups of `(.*?)(\d+)$`: the digits a name ends in, and what stands
before them on their line. -/
def numberSuffix (name : String) : Option (String × String) :=
  let reversed := name.toList.reverse
  let digits := (reversed.takeWhile isDecimalDigit).reverse
  let before := reversed.dropWhile isDecimalDigit
  if digits = [] then none
  else some (String.ofList (before.takeWhile (· ≠ '\n')).reverse, String.ofList digits)

/-- The name tried after `name`.  Digits that are not an ASCII `u64` make the
`parse` panic; adding one wraps around, as in a release build. -/
def incrementName (name : String) : Run String :=
  match numberSuffix name with
  | none => .done (name ++ "1")
  | some (stem, digits) =>
      match parseDigits digits.toList with
      | some number =>
          if number < 2 ^ 64 then .done (stem ++ displayInteger ((number + 1) % 2 ^ 64))
          else .panic
      | none => .panic

/-! ## Hydration -/

def GodotNode.withName (node : GodotNode) (name : String) : GodotNode :=
  { node with name := name }

/-- The test of the inner loop: another existing node with the same name and the
same parent fallback. -/
def isNamesake (nodes : HashMap NodeId GodotNode) (id : NodeId) (foundNode : GodotNode)
    (childId : NodeId) : Bool :=
  childId ≠ id &&
    match nodes.lookup childId with
    | some child =>
        child.name = foundNode.name && child.parentPathFallback = foundNode.parentPathFallback
    | none => false

/-- `while found`: rename until no listed child is a namesake. -/
def renameLoop (id : NodeId) (childIds : List NodeId) :
    ℕ → HashMap NodeId GodotNode → Run (HashMap NodeId GodotNode)
  | 0, _ => .running
  | fuel + 1, nodes =>
      match nodes.lookup id with
      | none => .panic
      | some foundNode =>
          if childIds.any (isNamesake nodes id foundNode) then do
            let name ← incrementName foundNode.name
            renameLoop id childIds fuel (nodes.insert id (foundNode.withName name))
          else .done nodes

/-- The body of the loop over the keys. -/
def dedupeName (fuel : ℕ) (nodes : HashMap NodeId GodotNode) (id : NodeId) :
    Run (HashMap NodeId GodotNode) :=
  match (nodes.lookup id).bind GodotNode.parentId with
  | none => .done nodes
  | some parentId =>
      match nodes.lookup parentId with
      | none => .done nodes
      | some parent => renameLoop id parent.childNodeIds fuel nodes

/-- Read a string key; one that is no node id makes the `unwrap` panic. -/
def readKey (entry : Entry String GodotNode) : Run (Entry NodeId GodotNode) :=
  match NodeId.fromStr entry.1 with
  | .done id => .done ⟨id, entry.2⟩
  | _ => .panic

/-- The stored nodes, collected under their ids. -/
def collectNodes (order : List (Entry String GodotNode)) :
    Run (HashMap NodeId GodotNode) := do
  let entries ← order.mapM readKey
  return HashMap.collect entries

/-- `hydrate_nodes`, iterating the stored map in `order` and the collected map's
keys as in `keys`. -/
def hydrateNodes (fuel : ℕ) (order : List (Entry String GodotNode)) (keys : List NodeId) :
    Run (HashMap NodeId GodotNode) := do
  let nodes ← collectNodes order
  keys.foldlM (dedupeName fuel) nodes

/-- `keys` can be the iteration order of the keys that these entries collect to. -/
def VisitsKeys (order : List (Entry String GodotNode)) (keys : List NodeId) : Prop :=
  ∀ nodes, collectNodes order = .done nodes → keys.Nodup ∧ ∀ id, id ∈ keys ↔ id ∈ nodes

theorem visitsKeys_of_keys_eq {order : List (Entry String GodotNode)} {keys : List NodeId}
    {nodes : HashMap NodeId GodotNode} (hcollect : collectNodes order = .done nodes)
    (hnodup : keys.Nodup) (hkeys : nodes.keys = keys.toFinset) : VisitsKeys order keys := by
  intro other hother
  cases hcollect.symm.trans hother
  refine ⟨hnodup, fun id => ?_⟩
  rw [← Finmap.mem_keys, hkeys, List.mem_toFinset]

/-- `reconcile_nodes`, iterating the nodes in `order`. -/
def reconcileNodes (order : List (Entry NodeId GodotNode)) : HashMap String GodotNode :=
  HashMap.collect (order.map fun entry => ⟨entry.1.display, entry.2⟩)

/-- Reconciling a scene into a document: every field but the nodes is stored as
it is. -/
def GodotScene.reconcile (scene : GodotScene) (order : List (Entry NodeId GodotNode)) :
    StoredScene :=
  ⟨scene.toSceneFields, reconcileNodes order⟩

/-- Hydrating a stored scene. -/
def StoredScene.hydrate (stored : StoredScene) (fuel : ℕ)
    (order : List (Entry String GodotNode)) (keys : List NodeId) : Run GodotScene := do
  let nodes ← hydrateNodes fuel order keys
  return ⟨stored.toSceneFields, nodes⟩

/-- A hydration of the stored scene can return this scene. -/
def StoredScene.HydratesTo (stored : StoredScene) (scene : GodotScene) : Prop :=
  ∃ fuel order keys, stored.nodes.Iterates order ∧ VisitsKeys order keys ∧
    stored.hydrate fuel order keys = .done scene

/-! ## One visit is one renaming -/

/-- The name stored for a node. -/
def nodeName (nodes : HashMap NodeId GodotNode) (id : NodeId) : String :=
  ((nodes.lookup id).map GodotNode.name).getD ""

/-- The same nodes under these names. -/
def Renamed (nodes : HashMap NodeId GodotNode) (names : NodeId → String)
    (result : HashMap NodeId GodotNode) : Prop :=
  ∀ id, result.lookup id = (nodes.lookup id).map fun node => node.withName (names id)

/-- The nodes on a list that a visit to `id` compares names with. -/
def siblings (nodes : HashMap NodeId GodotNode) (childIds : List NodeId) (id : NodeId) :
    Set NodeId :=
  {other | other ∈ childIds ∧ other ≠ id ∧ ∃ node child, nodes.lookup id = some node ∧
    nodes.lookup other = some child ∧ child.parentPathFallback = node.parentPathFallback}

/-- The nodes that a visit to `id` compares names with: those its parent lists. -/
def readsNames (nodes : HashMap NodeId GodotNode) (id : NodeId) : Set NodeId :=
  {other | ∃ node parentId parent, nodes.lookup id = some node ∧
    node.parentId = some parentId ∧ nodes.lookup parentId = some parent ∧
    other ∈ siblings nodes parent.childNodeIds id}

namespace Renamed

variable {nodes result : HashMap NodeId GodotNode} {names : NodeId → String}

protected theorem refl (nodes : HashMap NodeId GodotNode) :
    Renamed nodes (nodeName nodes) nodes := by
  intro id
  cases hnode : nodes.lookup id with
  | none => rfl
  | some node => simp [nodeName, hnode, GodotNode.withName]

/-- The names determine the result. -/
theorem unique {other : HashMap NodeId GodotNode} (hresult : Renamed nodes names result)
    (hother : Renamed nodes names other) : result = other :=
  Finmap.ext_lookup fun id => (hresult id).trans (hother id).symm

/-- Only the last names count. -/
theorem trans_iff {final : HashMap NodeId GodotNode} {more : NodeId → String}
    (hresult : Renamed nodes names result) :
    Renamed result more final ↔ Renamed nodes more final := by
  refine forall_congr' fun id => ?_
  rw [hresult, Option.map_map]
  rfl

theorem mem_iff (hresult : Renamed nodes names result) {id : NodeId} :
    id ∈ result ↔ id ∈ nodes := by
  rw [← Finmap.lookup_isSome, ← Finmap.lookup_isSome, hresult, Option.isSome_map]

theorem nodeName_eq (hresult : Renamed nodes names result) {id : NodeId} (hid : id ∈ nodes) :
    nodeName result id = names id := by
  obtain ⟨node, hnode⟩ := Finmap.mem_iff.mp hid
  simp [nodeName, hresult id, hnode, GodotNode.withName]

/-- Which nodes are compared does not depend on any name. -/
theorem siblings_eq (hresult : Renamed nodes names result) (childIds : List NodeId)
    (id : NodeId) : siblings result childIds id = siblings nodes childIds id := by
  ext other
  simp [siblings, hresult _, GodotNode.withName]

theorem readsNames_eq (hresult : Renamed nodes names result) :
    readsNames result = readsNames nodes := by
  funext id
  ext other
  simp [readsNames, hresult.siblings_eq, hresult _, GodotNode.withName]

/-- Giving one node another name. -/
theorem insert {id : NodeId} {node : GodotNode} (hnode : nodes.lookup id = some node)
    (name : String) :
    Renamed nodes (Function.update (nodeName nodes) id name)
      (nodes.insert id (node.withName name)) := by
  intro other
  by_cases heq : other = id
  · subst heq
    rw [Finmap.lookup_insert, hnode, Option.map_some, Function.update_self]
  · rw [Finmap.lookup_insert_of_ne _ heq, Function.update_of_ne heq]
    exact Renamed.refl nodes other

end Renamed

section Visit

variable {nodes : HashMap NodeId GodotNode} {id : NodeId} {node : GodotNode}

theorem nodeName_of_lookup (hnode : nodes.lookup id = some node) :
    nodeName nodes id = node.name := by
  simp [nodeName, hnode]

theorem nodeName_insert (hnode : nodes.lookup id = some node) (name : String) :
    nodeName (nodes.insert id (node.withName name)) =
      Function.update (nodeName nodes) id name := by
  funext other
  by_cases hmem : other ∈ nodes
  · exact (Renamed.insert hnode name).nodeName_eq hmem
  · have hne : other ≠ id := by
      rintro rfl
      exact hmem (Finmap.mem_of_lookup_eq_some hnode)
    rw [Function.update_of_ne hne, nodeName, Finmap.lookup_insert_of_ne _ hne, nodeName]

/-- The test of the loop: does a sibling carry the name? -/
theorem any_isNamesake_iff (hnode : nodes.lookup id = some node) (childIds : List NodeId) :
    childIds.any (isNamesake nodes id node) = true ↔
      nodeName nodes id ∈ Set.image (nodeName nodes) (siblings nodes childIds id) := by
  simp only [List.any_eq_true, isNamesake, Bool.and_eq_true, decide_eq_true_eq]
  rw [nodeName_of_lookup hnode]
  constructor
  · rintro ⟨other, hlisted, hne, hsame⟩
    cases hchild : nodes.lookup other with
    | none => simp [hchild] at hsame
    | some child =>
        simp only [hchild, Bool.and_eq_true, decide_eq_true_eq] at hsame
        refine ⟨other, ⟨hlisted, hne, node, child, hnode, hchild, hsame.2⟩, ?_⟩
        rw [nodeName_of_lookup hchild, hsame.1]
  · rintro ⟨other, ⟨hlisted, hne, found, child, hfound, hchild, hfallback⟩, hname⟩
    cases hnode.symm.trans hfound
    rw [nodeName_of_lookup hchild] at hname
    exact ⟨other, hlisted, hne, by simp [hchild, hname, hfallback]⟩

/-- The names compared with are those of other nodes. -/
theorem image_siblings_insert (hnode : nodes.lookup id = some node) (childIds : List NodeId)
    (name : String) :
    Set.image (nodeName (nodes.insert id (node.withName name)))
        (siblings (nodes.insert id (node.withName name)) childIds id) =
      Set.image (nodeName nodes) (siblings nodes childIds id) := by
  rw [(Renamed.insert hnode name).siblings_eq, nodeName_insert hnode]
  refine Set.image_congr fun other hother => ?_
  exact Function.update_of_ne hother.2.1 _ _

theorem insert_name_self (hnode : nodes.lookup id = some node) :
    nodes.insert id (node.withName node.name) = nodes := by
  refine (Renamed.insert hnode node.name).unique ?_
  rw [← nodeName_of_lookup hnode, Function.update_eq_self]
  exact Renamed.refl nodes

theorem renameLoop_succ (hnode : nodes.lookup id = some node) (childIds : List NodeId)
    (fuel : ℕ) :
    renameLoop id childIds (fuel + 1) nodes =
      if childIds.any (isNamesake nodes id node) then
        incrementName node.name >>= fun name =>
          renameLoop id childIds fuel (nodes.insert id (node.withName name))
      else .done nodes := by
  rw [renameLoop, hnode]

/-- The loop renames its node until it is fresh, and changes nothing else. -/
theorem exists_renameLoop_iff (hnode : nodes.lookup id = some node) {childIds : List NodeId}
    {result : HashMap NodeId GodotNode} :
    (∃ fuel, renameLoop id childIds fuel nodes = .done result) ↔
      ∃ name, Renaming.Fresh incrementName
        (Set.image (nodeName nodes) (siblings nodes childIds id)) node.name name ∧
        result = nodes.insert id (node.withName name) := by
  constructor
  · rintro ⟨fuel, hdone⟩
    induction fuel generalizing nodes node with
    | zero => nomatch hdone
    | succ fuel ih =>
        rw [renameLoop_succ hnode] at hdone
        have htest := any_isNamesake_iff hnode childIds
        rw [nodeName_of_lookup hnode] at htest
        split at hdone
        · rename_i hfound
          obtain ⟨name, hnext, hrest⟩ := Run.bind_eq_done_iff.mp hdone
          obtain ⟨final, hfresh, hresult⟩ := ih (Finmap.lookup_insert _) hrest
          rw [image_siblings_insert hnode] at hfresh
          rw [Finmap.insert_insert] at hresult
          exact ⟨final, .taken (htest.mp hfound) hnext hfresh, hresult⟩
        · rename_i hfree
          cases hdone
          exact ⟨node.name, .free fun hmem => hfree (htest.mpr hmem),
            (insert_name_self hnode).symm⟩
  · rintro ⟨name, hfresh, rfl⟩
    generalize htaken : Set.image (nodeName nodes) (siblings nodes childIds id) = taken
      at hfresh
    generalize hstart : node.name = start at hfresh
    induction hfresh generalizing nodes node with
    | @free start hfree =>
        have htest := any_isNamesake_iff hnode childIds
        rw [nodeName_of_lookup hnode, hstart, htaken] at htest
        refine ⟨1, ?_⟩
        rw [renameLoop_succ hnode, if_neg fun hfound => hfree (htest.mp hfound), ← hstart,
          insert_name_self hnode]
    | @taken start other final hmem hnext _ ih =>
        have htest := any_isNamesake_iff hnode childIds
        rw [nodeName_of_lookup hnode, hstart, htaken] at htest
        obtain ⟨fuel, hrest⟩ := @ih _ (node.withName other) (Finmap.lookup_insert _)
          ((image_siblings_insert hnode childIds other).trans htaken) rfl
        refine ⟨fuel + 1, ?_⟩
        rw [renameLoop_succ hnode, if_pos (htest.mpr hmem), hstart, hnext, Run.done_bind,
          hrest, Finmap.insert_insert]
        rfl

theorem renameLoop_mono {fuel more : ℕ} {childIds : List NodeId}
    {result : HashMap NodeId GodotNode}
    (hdone : renameLoop id childIds fuel nodes = .done result) (hle : fuel ≤ more) :
    renameLoop id childIds more nodes = .done result := by
  induction fuel generalizing more nodes with
  | zero => nomatch hdone
  | succ fuel ih =>
      obtain ⟨more, rfl⟩ := Nat.exists_eq_add_of_le' (Nat.zero_lt_of_lt hle)
      cases hnode : nodes.lookup id with
      | none => simp [renameLoop, hnode] at hdone
      | some node =>
          rw [renameLoop_succ hnode] at hdone ⊢
          by_cases hfound : childIds.any (isNamesake nodes id node) = true
          · rw [if_pos hfound] at hdone ⊢
            obtain ⟨name, hnext, hrest⟩ := Run.bind_eq_done_iff.mp hdone
            exact Run.bind_eq_done_iff.mpr ⟨name, hnext, ih hrest (by omega)⟩
          · rwa [if_neg hfound] at hdone ⊢

theorem dedupeName_mono {fuel more : ℕ} {result : HashMap NodeId GodotNode}
    (hdone : dedupeName fuel nodes id = .done result) (hle : fuel ≤ more) :
    dedupeName more nodes id = .done result := by
  unfold dedupeName at hdone ⊢
  split at hdone
  · exact hdone
  · split at hdone
    · exact hdone
    · exact renameLoop_mono hdone hle

/-- A visit that compares its node with nothing leaves everything as it is. -/
theorem exists_fresh_of_readsNames_eq_empty (hnode : nodes.lookup id = some node)
    (hreads : readsNames nodes id = ∅) {result : HashMap NodeId GodotNode} :
    nodes = result ↔
      ∃ name, Renaming.Fresh incrementName (Set.image (nodeName nodes) (readsNames nodes id))
        node.name name ∧ result = nodes.insert id (node.withName name) := by
  rw [hreads, Set.image_empty]
  constructor
  · rintro rfl
    exact ⟨node.name, .free (Set.notMem_empty _), (insert_name_self hnode).symm⟩
  · rintro ⟨name, hfresh, rfl⟩
    rw [hfresh.eq_of_not_mem (Set.notMem_empty _), insert_name_self hnode]

/-- **A visit renames its node until it is fresh, and changes nothing else.** -/
theorem exists_dedupeName_iff (hnode : nodes.lookup id = some node)
    {result : HashMap NodeId GodotNode} :
    (∃ fuel, dedupeName fuel nodes id = .done result) ↔
      ∃ name, Renaming.Fresh incrementName (Set.image (nodeName nodes) (readsNames nodes id))
        node.name name ∧ result = nodes.insert id (node.withName name) := by
  rcases Option.eq_none_or_eq_some node.parentId with hparentId | ⟨parentId, hparentId⟩
  · have hreads : readsNames nodes id = ∅ := by simp [readsNames, hnode, hparentId]
    have hdone : (∃ fuel, dedupeName fuel nodes id = .done result) ↔ nodes = result := by
      simp [dedupeName, hnode, hparentId]
    exact hdone.trans (exists_fresh_of_readsNames_eq_empty hnode hreads)
  · rcases Option.eq_none_or_eq_some (nodes.lookup parentId) with hparent | ⟨parent, hparent⟩
    · have hreads : readsNames nodes id = ∅ := by
        simp [readsNames, hnode, hparentId, hparent]
      have hdone : (∃ fuel, dedupeName fuel nodes id = .done result) ↔ nodes = result := by
        simp [dedupeName, hnode, hparentId, hparent]
      exact hdone.trans (exists_fresh_of_readsNames_eq_empty hnode hreads)
    · have hreads : readsNames nodes id = siblings nodes parent.childNodeIds id := by
        ext other
        simp [readsNames, hnode, hparentId, hparent]
      have hloop : ∀ fuel, dedupeName fuel nodes id =
          renameLoop id parent.childNodeIds fuel nodes := by
        intro fuel
        simp [dedupeName, hnode, hparentId, hparent]
      simp only [hloop]
      rw [hreads]
      exact exists_renameLoop_iff hnode

end Visit

/-! ## All visits -/

theorem dedupeNames_mono {fuel more : ℕ} {keys : List NodeId}
    {nodes result : HashMap NodeId GodotNode}
    (hdone : keys.foldlM (dedupeName fuel) nodes = .done result) (hle : fuel ≤ more) :
    keys.foldlM (dedupeName more) nodes = .done result := by
  induction keys generalizing nodes with
  | nil => exact hdone
  | cons id keys ih =>
      obtain ⟨middle, hfirst, hrest⟩ := Run.foldlM_cons_eq_done_iff.mp hdone
      exact Run.foldlM_cons_eq_done_iff.mpr ⟨middle, dedupeName_mono hfirst hle, ih hrest⟩

/-- **The loop over the keys refines the visits of the renaming.** -/
theorem exists_dedupeNames_iff {keys : List NodeId} {nodes result : HashMap NodeId GodotNode}
    (hkeys : ∀ id ∈ keys, id ∈ nodes) :
    (∃ fuel, keys.foldlM (dedupeName fuel) nodes = .done result) ↔
      ∃ names, Renaming.Visits incrementName (readsNames nodes) (nodeName nodes) keys names ∧
        Renamed nodes names result := by
  induction keys generalizing nodes with
  | nil =>
      constructor
      · rintro ⟨_, hdone⟩
        cases hdone
        exact ⟨nodeName result, .nil _, .refl result⟩
      · rintro ⟨_, hvisits, hrenamed⟩
        rw [Renaming.Visits.nil_iff] at hvisits
        subst hvisits
        exact ⟨0, congrArg Run.done ((Renamed.refl nodes).unique hrenamed)⟩
  | cons id keys ih =>
      obtain ⟨node, hnode⟩ := Finmap.mem_iff.mp (hkeys id (by simp))
      have hrest : ∀ name other, other ∈ keys →
          other ∈ nodes.insert id (node.withName name) := fun name other hother =>
        (Renamed.insert hnode name).mem_iff.mpr (hkeys other (List.mem_cons_of_mem _ hother))
      constructor
      · rintro ⟨fuel, hdone⟩
        obtain ⟨middle, hfirst, hlater⟩ := Run.foldlM_cons_eq_done_iff.mp hdone
        obtain ⟨name, hfresh, rfl⟩ := (exists_dedupeName_iff hnode).mp ⟨fuel, hfirst⟩
        obtain ⟨names, hvisits, hrenamed⟩ := (ih (hrest name)).mp ⟨fuel, hlater⟩
        rw [(Renamed.insert hnode name).readsNames_eq, nodeName_insert hnode] at hvisits
        rw [← nodeName_of_lookup hnode] at hfresh
        exact ⟨names, .cons hfresh hvisits, (Renamed.insert hnode name).trans_iff.mp hrenamed⟩
      · rintro ⟨names, hvisits, hrenamed⟩
        obtain ⟨name, hfresh, hvisits⟩ := Renaming.Visits.cons_iff.mp hvisits
        rw [nodeName_of_lookup hnode] at hfresh
        rw [← nodeName_insert hnode, ← (Renamed.insert hnode name).readsNames_eq] at hvisits
        obtain ⟨fuel, hfirst⟩ := (exists_dedupeName_iff hnode).mpr ⟨name, hfresh, rfl⟩
        obtain ⟨more, hlater⟩ := (ih (hrest name)).mpr
          ⟨names, hvisits, (Renamed.insert hnode name).trans_iff.mpr hrenamed⟩
        have hfirst := dedupeName_mono hfirst (Nat.le_max_left fuel more)
        have hlater := dedupeNames_mono hlater (Nat.le_max_right fuel more)
        exact ⟨max fuel more, Run.foldlM_cons_eq_done_iff.mpr ⟨_, hfirst, hlater⟩⟩

end Backstitch
