/-
# Do two hydrations agree?

Two clients at the same heads hydrate the same stored nodes, each going through the stored map and
then through the keys of its own hash map in its own order.  Keys such as `1` and `01` are read as
one id, and the node that is read last is kept.  The clients end up with the same nodes exactly
when such keys hold the same node up to its name, and the names settle alike whichever is kept.
Where parents and child lists agree, settled names mean that no two children of one parent look
alike.
-/

import Backstitch.Parser.Hydrate

namespace Backstitch

/-- Every hydration of the stored nodes returns, and all of them return the same nodes. -/
def ReplicasAgree (stored : HashMap String GodotNode) : Prop :=
  ∃ nodes, ∀ order keys, stored.Iterates order → VisitsKeys order keys →
    ∃ fuel, hydrateNodes fuel order keys = .done nodes

/-- Every node ends up with this name, the first one after its own that no node it is compared
with keeps; and none of the nodes it is compared with carries that name, before or after its own
visit. -/
def NamesSettleAs (nodes : HashMap NodeId GodotNode) (names : NodeId → String) : Prop :=
  Renaming.SettlesAs incrementName (readsNames nodes) (nodeName nodes) names

/-- Every node has a name to end up with. -/
def NamesSettled (nodes : HashMap NodeId GodotNode) : Prop :=
  ∃ names, NamesSettleAs nodes names

section Renamed

variable {nodes result : HashMap NodeId GodotNode}

theorem exists_renamed (nodes : HashMap NodeId GodotNode) (names : NodeId → String) :
    ∃ result, Renamed nodes names result := by
  have hpart : ∀ keys : Finset NodeId, ∃ result : HashMap NodeId GodotNode, ∀ id,
      result.lookup id = (nodes.lookup id).map fun node =>
        if id ∈ keys then node.withName (names id) else node := by
    intro keys
    induction keys using Finset.induction_on with
    | empty => exact ⟨nodes, fun id => by simp⟩
    | insert key keys _ ih =>
        obtain ⟨result, hresult⟩ := ih
        cases hnode : nodes.lookup key with
        | none =>
            refine ⟨result, fun id => (hresult id).trans ?_⟩
            by_cases heq : id = key
            · rw [heq, hnode, Option.map_none, Option.map_none]
            · simp [heq]
        | some node =>
            refine ⟨result.insert key (node.withName (names key)), fun id => ?_⟩
            by_cases heq : id = key
            · rw [heq, hnode, Finmap.lookup_insert]
              simp
            · rw [Finmap.lookup_insert_of_ne _ heq, hresult id]
              simp [heq]
  obtain ⟨result, hresult⟩ := hpart nodes.keys
  refine ⟨result, fun id => (hresult id).trans ?_⟩
  cases hnode : nodes.lookup id with
  | none => rfl
  | some node => simp [Finmap.mem_keys, Finmap.mem_of_lookup_eq_some hnode]

theorem nodeName_of_not_mem {id : NodeId} (hid : id ∉ nodes) : nodeName nodes id = "" := by
  rw [nodeName, Finmap.lookup_eq_none.mpr hid]
  rfl

/-- Visits to some of the nodes determine all names of the result. -/
theorem Renamed.nodeName_eq_of_visits {names : NodeId → String} {keys : List NodeId}
    (hresult : Renamed nodes names result) (hkeys : ∀ id ∈ keys, id ∈ nodes)
    (hvisits : Renaming.Visits incrementName (readsNames nodes) (nodeName nodes) keys names) :
    nodeName result = names := by
  funext id
  by_cases hid : id ∈ nodes
  · exact hresult.nodeName_eq hid
  · rw [hvisits.eq_of_not_mem fun hmem => hid (hkeys id hmem), nodeName_of_not_mem hid,
      nodeName_of_not_mem fun hmem => hid (hresult.mem_iff.mp hmem)]

end Renamed

/-- A visit reads only existing nodes, and never its own. -/
theorem mem_of_mem_readsNames {nodes : HashMap NodeId GodotNode} {id other : NodeId}
    (hother : other ∈ readsNames nodes id) : id ∈ nodes ∧ other ∈ nodes ∧ other ≠ id := by
  obtain ⟨node, _, _, hnode, _, _, _, hne, _, _, _, hchild, _⟩ := hother
  exact ⟨Finmap.mem_of_lookup_eq_some hnode, Finmap.mem_of_lookup_eq_some hchild, hne⟩

theorem hydrateNodes_of_collectNodes {order : List (Entry String GodotNode)}
    {nodes : HashMap NodeId GodotNode} (hcollect : collectNodes order = .done nodes)
    (fuel : ℕ) (keys : List NodeId) :
    hydrateNodes fuel order keys = keys.foldlM (dedupeName fuel) nodes := by
  rw [hydrateNodes, hcollect, Run.done_bind]

theorem visitsKeys_iff {order : List (Entry String GodotNode)}
    {nodes : HashMap NodeId GodotNode} (hcollect : collectNodes order = .done nodes)
    {keys : List NodeId} : VisitsKeys order keys ↔ keys.Perm nodes.keys.toList := by
  have hperm : keys.Perm nodes.keys.toList ↔
      keys.Nodup ∧ ∀ id, id ∈ keys ↔ id ∈ nodes := by
    constructor
    · intro hperm
      refine ⟨hperm.nodup_iff.mpr nodes.keys.nodup_toList, fun id => ?_⟩
      rw [hperm.mem_iff, Finset.mem_toList, Finmap.mem_keys]
    · rintro ⟨hnodup, hmem⟩
      refine (List.perm_ext_iff_of_nodup hnodup nodes.keys.nodup_toList).mpr fun id => ?_
      rw [hmem, Finset.mem_toList, Finmap.mem_keys]
  rw [hperm]
  constructor
  · intro hkeys
    exact hkeys nodes hcollect
  · intro hkeys other hother
    cases hcollect.symm.trans hother
    exact hkeys

/-- Once the nodes are collected, every order of visits ends with the same nodes exactly when their
names settle as the names of these. -/
theorem forall_hydrateNodes_iff {order : List (Entry String GodotNode)}
    {nodes result : HashMap NodeId GodotNode} (hcollect : collectNodes order = .done nodes) :
    (∀ keys, VisitsKeys order keys → ∃ fuel, hydrateNodes fuel order keys = .done result) ↔
      ∃ names, NamesSettleAs nodes names ∧ Renamed nodes names result := by
  have hmem : ∀ keys : List NodeId, keys.Perm nodes.keys.toList → ∀ id ∈ keys, id ∈ nodes :=
    fun keys hperm id hid =>
      Finmap.mem_keys.mp (Finset.mem_toList.mp (hperm.mem_iff.mp hid))
  have hreads : ∀ id, ∀ other ∈ readsNames nodes id,
      id ∈ nodes.keys.toList ∧ other ∈ nodes.keys.toList ∧ other ≠ id := by
    intro id other hother
    simpa [Finmap.mem_keys] using mem_of_mem_readsNames hother
  simp only [visitsKeys_iff hcollect, hydrateNodes_of_collectNodes hcollect]
  constructor
  · intro hresult
    have hvisits : ∀ keys : List NodeId, keys.Perm nodes.keys.toList →
        Renaming.Visits incrementName (readsNames nodes) (nodeName nodes) keys
          (nodeName result) := by
      intro keys hperm
      obtain ⟨names, hrun, hrenamed⟩ :=
        (exists_dedupeNames_iff (hmem keys hperm)).mp (hresult keys hperm)
      rwa [hrenamed.nodeName_eq_of_visits (hmem keys hperm) hrun]
    obtain ⟨names, hrun, hrenamed⟩ :=
      (exists_dedupeNames_iff (hmem _ (List.Perm.refl _))).mp (hresult _ (List.Perm.refl _))
    rw [← hrenamed.nodeName_eq_of_visits (hmem _ (List.Perm.refl _)) hrun] at hrenamed
    exact ⟨nodeName result, (Renaming.forall_visits_iff_settlesAs nodes.keys.nodup_toList
      hreads).mp hvisits, hrenamed⟩
  · rintro ⟨names, hsettles, hrenamed⟩ keys hperm
    have hvisits := (Renaming.forall_visits_iff_settlesAs nodes.keys.nodup_toList hreads).mpr
      hsettles keys hperm
    exact (exists_dedupeNames_iff (hmem keys hperm)).mpr ⟨names, hvisits, hrenamed⟩

/-! ## Keys that are read as one id -/

/-- For each id that a key is read as, the node under one of these keys. -/
structure KeepsOneEach (stored : HashMap String GodotNode) (nodes : HashMap NodeId GodotNode) :
    Prop where
  exists_key : ∀ id node, nodes.lookup id = some node →
    ∃ key, NodeId.fromStr key = .done id ∧ stored.lookup key = some node
  exists_id : ∀ key ∈ stored, ∃ id ∈ nodes, NodeId.fromStr key = .done id

/-- The nodes differ at most in their names. -/
def GodotNode.SameButName (node other : GodotNode) : Prop :=
  ∀ name, node.withName name = other.withName name

theorem readKey_eq_done_iff {entry : Entry String GodotNode} {result : Entry NodeId GodotNode} :
    readKey entry = .done result ↔
      NodeId.fromStr entry.1 = .done result.1 ∧ entry.2 = result.2 := by
  obtain ⟨id, node⟩ := result
  unfold readKey
  cases NodeId.fromStr entry.1 with
  | done found => simp [Sigma.ext_iff]
  | fail message => simp
  | panic => simp
  | running => simp

theorem collectNodes_eq_done_iff {order : List (Entry String GodotNode)}
    {nodes : HashMap NodeId GodotNode} : collectNodes order = .done nodes ↔
      ∃ entries, List.Forall₂ (fun entry result => readKey entry = .done result) order entries ∧
        HashMap.collect entries = nodes := by
  rw [collectNodes, Run.bind_eq_done_iff]
  simp only [Run.mapM_eq_done_iff, Run.pure_eq_done, Run.done.injEq]

/-- Keys that can be read are collected. -/
theorem exists_collectNodes_of_readable {order : List (Entry String GodotNode)}
    (hreadable : ∀ entry ∈ order, ∃ id, NodeId.fromStr entry.1 = .done id) :
    ∃ nodes, collectNodes order = .done nodes := by
  obtain ⟨_, entries, hentries⟩ : ∃ (_ : ℕ) (entries : List (Entry NodeId GodotNode)),
      order.mapM readKey = .done entries := by
    apply Run.exists_mapM_done (f := fun _ => readKey)
    · intro entry hentry
      obtain ⟨id, hid⟩ := hreadable entry hentry
      exact ⟨0, ⟨id, entry.2⟩, readKey_eq_done_iff.mpr ⟨hid, rfl⟩⟩
    · exact fun _ _ _ _ hdone _ => hdone
  exact ⟨_, collectNodes_eq_done_iff.mpr ⟨entries, Run.mapM_eq_done_iff.mp hentries, rfl⟩⟩

section Collect

variable {stored : HashMap String GodotNode} {order : List (Entry String GodotNode)}
  {nodes : HashMap NodeId GodotNode}

theorem exists_collectNodes_of_iterates (horder : stored.Iterates order)
    (hreadable : ∀ key ∈ stored, ∃ id, NodeId.fromStr key = .done id) :
    ∃ nodes, collectNodes order = .done nodes :=
  exists_collectNodes_of_readable fun entry hentry =>
    hreadable entry.1 (horder.mem_keys_iff.mp (List.mem_map_of_mem hentry))

/-- One node is kept for each id. -/
theorem keepsOneEach_of_collectNodes (horder : stored.Iterates order)
    (hcollect : collectNodes order = .done nodes) : KeepsOneEach stored nodes := by
  obtain ⟨entries, hentries, rfl⟩ := collectNodes_eq_done_iff.mp hcollect
  constructor
  · intro id node hnode
    obtain ⟨entry, hentry, hread⟩ :=
      exists_of_mem_right hentries (HashMap.mem_of_lookup_collect hnode)
    obtain ⟨hid, rfl⟩ := readKey_eq_done_iff.mp hread
    exact ⟨entry.1, hid, horder.mem_iff.mp hentry⟩
  · intro key hkey
    obtain ⟨entry, hentry, rfl⟩ := List.mem_map.mp (horder.mem_keys_iff.mpr hkey)
    obtain ⟨result, hresult, hread⟩ := exists_of_mem_left hentries hentry
    exact ⟨result.1, HashMap.mem_collect.mpr (List.mem_map_of_mem hresult),
      (readKey_eq_done_iff.mp hread).1⟩

/-- Whichever node is kept for each id, some order keeps these. -/
theorem KeepsOneEach.exists_collectNodes (hkeeps : KeepsOneEach stored nodes) :
    ∃ order, stored.Iterates order ∧ collectNodes order = .done nodes := by
  obtain ⟨order, horder⟩ := stored.exists_iterates
  have hreadable : ∀ key ∈ stored, ∃ id, NodeId.fromStr key = .done id :=
    fun key hkey => (hkeeps.exists_id key hkey).imp fun _ hboth => hboth.2
  obtain ⟨collected, hcollected⟩ := exists_collectNodes_of_iterates horder hreadable
  obtain ⟨entries, hentries, -⟩ := collectNodes_eq_done_iff.mp hcollected
  obtain ⟨kept, hperm, hkept⟩ : ∃ kept : List (Entry NodeId GodotNode), kept.Perm entries ∧
      HashMap.collect kept = nodes := by
    apply HashMap.exists_perm_collect_eq
    · intro id node hnode
      obtain ⟨key, hid, hlookup⟩ := hkeeps.exists_key id node hnode
      obtain ⟨result, hresult, hread⟩ := exists_of_mem_left hentries (horder.mem_iff.mpr hlookup)
      obtain ⟨hfound, rfl⟩ := readKey_eq_done_iff.mp hread
      cases hid.symm.trans hfound
      exact hresult
    · intro result hresult
      obtain ⟨entry, hentry, hread⟩ := exists_of_mem_right hentries hresult
      obtain ⟨id, hmem, hid⟩ :=
        hkeeps.exists_id entry.1 (horder.mem_keys_iff.mp (List.mem_map_of_mem hentry))
      cases hid.symm.trans (readKey_eq_done_iff.mp hread).1
      exact hmem
  obtain ⟨other, hother, hsame⟩ := List.perm_comp_forall₂ hperm hentries.flip
  exact ⟨other, horder.of_perm hsame, collectNodes_eq_done_iff.mpr ⟨kept, hother.flip, hkept⟩⟩

/-- Any one of the keys that are read as an id can be the one whose node is kept. -/
theorem exists_keepsOneEach {key : String} {id : NodeId} {node : GodotNode}
    (hreadable : ∀ key ∈ stored, ∃ id, NodeId.fromStr key = .done id)
    (hnode : stored.lookup key = some node) (hid : NodeId.fromStr key = .done id) :
    ∃ nodes, KeepsOneEach stored nodes ∧ nodes.lookup id = some node := by
  obtain ⟨order, horder⟩ := stored.exists_iterates
  obtain ⟨nodes, hcollect⟩ := exists_collectNodes_of_iterates horder hreadable
  have hkeeps := keepsOneEach_of_collectNodes horder hcollect
  refine ⟨nodes.insert id node, ⟨?_, ?_⟩, Finmap.lookup_insert nodes⟩
  · intro other found hfound
    by_cases heq : other = id
    · subst heq
      rw [Finmap.lookup_insert] at hfound
      cases hfound
      exact ⟨key, hid, hnode⟩
    · rw [Finmap.lookup_insert_of_ne _ heq] at hfound
      exact hkeeps.exists_key other found hfound
  · intro other hother
    obtain ⟨found, hmem, hfound⟩ := hkeeps.exists_id other hother
    exact ⟨found, Finmap.mem_insert.mpr (.inr hmem), hfound⟩

/-- Maps that keep one node for each id have the same ids. -/
theorem KeepsOneEach.mem_of_mem {others : HashMap NodeId GodotNode} {id : NodeId}
    (hkeeps : KeepsOneEach stored nodes) (hothers : KeepsOneEach stored others)
    (hid : id ∈ nodes) : id ∈ others := by
  obtain ⟨node, hnode⟩ := Finmap.mem_iff.mp hid
  obtain ⟨key, hread, hstored⟩ := hkeeps.exists_key id node hnode
  obtain ⟨found, hfound, hsame⟩ := hothers.exists_id key (Finmap.mem_of_lookup_eq_some hstored)
  cases hread.symm.trans hsame
  exact hfound

end Collect

/-- Names that settle are what the renamed nodes are called. -/
theorem NamesSettleAs.eq_nodeName {nodes result : HashMap NodeId GodotNode}
    {names : NodeId → String} (hsettles : NamesSettleAs nodes names)
    (hresult : Renamed nodes names result) : names = nodeName result := by
  funext id
  by_cases hid : id ∈ nodes
  · exact (hresult.nodeName_eq hid).symm
  · rw [nodeName_of_not_mem fun hmem => hid (hresult.mem_iff.mp hmem), ← nodeName_of_not_mem hid]
    refine (hsettles id).1.eq_of_not_mem ?_
    exact fun ⟨other, hother, _⟩ => hid (mem_of_mem_readsNames hother.1).1

section Agree

variable {stored : HashMap String GodotNode} {nodes others result : HashMap NodeId GodotNode}

/-- What is renamed from one choice of nodes is renamed from any other, where they differ at most
in their names. -/
theorem Renamed.of_keepsOneEach {names : NodeId → String} (hrenamed : Renamed nodes names result)
    (hkeeps : KeepsOneEach stored nodes) (hkeepsOther : KeepsOneEach stored others)
    (hsame : ∀ first second id node other, NodeId.fromStr first = .done id →
      NodeId.fromStr second = .done id → stored.lookup first = some node →
      stored.lookup second = some other → node.SameButName other) : Renamed others names result := by
  intro id
  rw [hrenamed id]
  cases hnode : nodes.lookup id with
  | none =>
      have habsent : others.lookup id = none := by
        refine Finmap.lookup_eq_none.mpr fun hmem => ?_
        exact Finmap.lookup_eq_none.mp hnode (hkeepsOther.mem_of_mem hkeeps hmem)
      rw [habsent, Option.map_none]
  | some node =>
      obtain ⟨other, hother⟩ := Finmap.mem_iff.mp
        (hkeeps.mem_of_mem hkeepsOther (Finmap.mem_of_lookup_eq_some hnode))
      obtain ⟨key, hread, hstored⟩ := hkeeps.exists_key id node hnode
      obtain ⟨otherKey, hreadOther, hstoredOther⟩ := hkeepsOther.exists_key id other hother
      rw [hother, Option.map_some, Option.map_some,
        hsame key otherKey id node other hread hreadOther hstored hstoredOther]

variable (hresult : ∀ order keys, stored.Iterates order → VisitsKeys order keys →
  ∃ fuel, hydrateNodes fuel order keys = .done result)

include hresult

/-- Every key can be read. -/
theorem exists_fromStr_of_hydrates : ∀ key ∈ stored, ∃ id, NodeId.fromStr key = .done id := by
  obtain ⟨order, horder⟩ := stored.exists_iterates
  cases hcollect : collectNodes order with
  | done nodes =>
      exact fun key hkey => ((keepsOneEach_of_collectNodes horder hcollect).exists_id key hkey).imp
        fun _ hboth => hboth.2
  | _ =>
      obtain ⟨fuel, hdone⟩ :=
        hresult order [] horder (fun nodes hdone => by simp [hcollect] at hdone)
      simp [hydrateNodes, hcollect] at hdone

/-- The names settle as those of the result. -/
theorem namesSettleAs_of_hydrates (hkeeps : KeepsOneEach stored nodes) :
    NamesSettleAs nodes (nodeName result) ∧ Renamed nodes (nodeName result) result := by
  obtain ⟨order, horder, hcollect⟩ := hkeeps.exists_collectNodes
  obtain ⟨names, hnames, hrenamed⟩ :=
    (forall_hydrateNodes_iff hcollect).mp fun keys => hresult order keys horder
  obtain rfl := hnames.eq_nodeName hrenamed
  exact ⟨hnames, hrenamed⟩

/-- Nodes under keys that are read as one id come out alike. -/
theorem sameButName_of_hydrates {first second : String} {id : NodeId} {node other : GodotNode}
    (hfirst : NodeId.fromStr first = .done id) (hsecond : NodeId.fromStr second = .done id)
    (hnode : stored.lookup first = some node) (hother : stored.lookup second = some other) :
    node.SameButName other := by
  intro name
  have hreadable := exists_fromStr_of_hydrates hresult
  obtain ⟨nodes, hkeeps, hlookup⟩ := exists_keepsOneEach hreadable hnode hfirst
  obtain ⟨others, hkeepsOther, hlookupOther⟩ := exists_keepsOneEach hreadable hother hsecond
  have hone := (namesSettleAs_of_hydrates hresult hkeeps).2 id
  have htwo := (namesSettleAs_of_hydrates hresult hkeepsOther).2 id
  rw [hlookup, Option.map_some] at hone
  rw [hlookupOther, Option.map_some] at htwo
  have hsame : node.withName (nodeName result id) = other.withName (nodeName result id) :=
    Option.some.inj (hone.symm.trans htwo)
  -- the second renaming undoes the first
  have hrenamed := congrArg (fun found : GodotNode => found.withName name) hsame
  exact hrenamed

end Agree

/-- **Replicas agree on a hydrated scene exactly when every key can be read, keys that are read as
one id hold the same node up to its name, and whichever node is kept for each id, the stored names
settle as the same names.** -/
theorem replicasAgree_iff (stored : HashMap String GodotNode) : ReplicasAgree stored ↔
    (∀ key ∈ stored, ∃ id, NodeId.fromStr key = .done id) ∧
    (∀ first second id node other, NodeId.fromStr first = .done id →
      NodeId.fromStr second = .done id → stored.lookup first = some node →
      stored.lookup second = some other → node.SameButName other) ∧
    ∃ names, ∀ nodes, KeepsOneEach stored nodes → NamesSettleAs nodes names := by
  constructor
  · rintro ⟨result, hresult⟩
    exact ⟨exists_fromStr_of_hydrates hresult,
      fun _ _ _ _ _ => sameButName_of_hydrates hresult, nodeName result,
      fun _ hkeeps => (namesSettleAs_of_hydrates hresult hkeeps).1⟩
  · rintro ⟨hreadable, hsame, names, hnames⟩
    obtain ⟨first, hfirst⟩ := stored.exists_iterates
    obtain ⟨nodes, hcollect⟩ := exists_collectNodes_of_iterates hfirst hreadable
    obtain ⟨result, hrenamed⟩ := exists_renamed nodes names
    refine ⟨result, fun order keys horder hkeys => ?_⟩
    obtain ⟨others, hothers⟩ := exists_collectNodes_of_iterates horder hreadable
    have hkeeps := keepsOneEach_of_collectNodes hfirst hcollect
    have hkeepsOther := keepsOneEach_of_collectNodes horder hothers
    exact (forall_hydrateNodes_iff hothers).mpr
      ⟨names, hnames others hkeepsOther, hrenamed.of_keepsOneEach hkeeps hkeepsOther hsame⟩ keys
        hkeys

/-- Where no two keys are read as one id, replicas agree exactly when the stored names are
settled. -/
theorem replicasAgree_iff_namesSettled {stored : HashMap String GodotNode}
    {order : List (Entry String GodotNode)} {nodes : HashMap NodeId GodotNode}
    (horder : stored.Iterates order) (hcollect : collectNodes order = .done nodes)
    (hdistinct : ∀ first ∈ stored, ∀ second ∈ stored, ∀ id, NodeId.fromStr first = .done id →
      NodeId.fromStr second = .done id → first = second) :
    ReplicasAgree stored ↔ NamesSettled nodes := by
  have hkeeps := keepsOneEach_of_collectNodes horder hcollect
  have honly : ∀ others, KeepsOneEach stored others → others = nodes := by
    intro others hothers
    refine Finmap.ext_lookup fun id => ?_
    cases hnode : nodes.lookup id with
    | none =>
        refine Finmap.lookup_eq_none.mpr fun hmem => ?_
        exact Finmap.lookup_eq_none.mp hnode (hothers.mem_of_mem hkeeps hmem)
    | some node =>
        obtain ⟨other, hother⟩ := Finmap.mem_iff.mp
          (hkeeps.mem_of_mem hothers (Finmap.mem_of_lookup_eq_some hnode))
        obtain ⟨key, hread, hstored⟩ := hkeeps.exists_key id node hnode
        obtain ⟨otherKey, hreadOther, hstoredOther⟩ := hothers.exists_key id other hother
        have heq := hdistinct key (Finmap.mem_of_lookup_eq_some hstored) otherKey
          (Finmap.mem_of_lookup_eq_some hstoredOther) id hread hreadOther
        rw [← heq, hstored] at hstoredOther
        rw [hother, Option.some.inj hstoredOther]
  rw [replicasAgree_iff]
  constructor
  · rintro ⟨-, -, names, hnames⟩
    exact ⟨names, hnames nodes hkeeps⟩
  · rintro ⟨names, hnames⟩
    refine ⟨fun key hkey => (hkeeps.exists_id key hkey).imp fun _ hboth => hboth.2, ?_, names,
      fun others hothers => honly others hothers ▸ hnames⟩
    intro first second id node other hfirst hsecond hnode hother name
    have heq := hdistinct first (Finmap.mem_of_lookup_eq_some hnode) second
      (Finmap.mem_of_lookup_eq_some hother) id hfirst hsecond
    rw [← heq, hnode] at hother
    rw [Option.some.inj hother]

theorem hydrateNodes_mono {fuel more : ℕ} {order : List (Entry String GodotNode)}
    {keys : List NodeId} {result : HashMap NodeId GodotNode}
    (hdone : hydrateNodes fuel order keys = .done result) (hle : fuel ≤ more) :
    hydrateNodes more order keys = .done result := by
  obtain ⟨nodes, hcollect, hrest⟩ := Run.bind_eq_done_iff.mp hdone
  exact Run.bind_eq_done_iff.mpr ⟨nodes, hcollect, dedupeNames_mono hrest hle⟩

/-- A root with two children that two clients both called `A`. -/
def twins : List (Entry String GodotNode) :=
  [⟨"1", .bare ⟨1, none⟩ "Root" none [⟨2, none⟩, ⟨3, none⟩]⟩,
    ⟨"2", .bare ⟨2, none⟩ "A" (some ⟨1, none⟩) []⟩,
    ⟨"3", .bare ⟨3, none⟩ "A" (some ⟨1, none⟩) []⟩]

/-- Whichever twin is visited first becomes `A1`. -/
theorem twins_not_replicasAgree :
    ∃ stored : HashMap String GodotNode, stored.Iterates twins ∧ ¬ ReplicasAgree stored := by
  have hkeys : (twins.map Sigma.fst).Nodup := by decide
  obtain ⟨stored, hiterates⟩ := HashMap.iterates_of_nodup hkeys
  refine ⟨stored, hiterates, ?_⟩
  rintro ⟨nodes, hnodes⟩
  obtain ⟨collected, hstored, hkeys⟩ : ∃ collected, collectNodes twins = .done collected ∧
      collected.keys = {⟨1, none⟩, ⟨2, none⟩, ⟨3, none⟩} := ⟨_, rfl, by decide⟩
  have hvisits : ∀ keys : List NodeId, keys.Nodup →
      {⟨1, none⟩, ⟨2, none⟩, ⟨3, none⟩} = keys.toFinset → VisitsKeys twins keys :=
    fun keys hnodup hsame => visitsKeys_of_keys_eq hstored hnodup (hkeys.trans hsame)
  obtain ⟨fuel, hfirst⟩ := hnodes twins [⟨1, none⟩, ⟨2, none⟩, ⟨3, none⟩]
    hiterates (hvisits _ (by decide) (by decide))
  obtain ⟨more, hsecond⟩ := hnodes twins [⟨1, none⟩, ⟨3, none⟩, ⟨2, none⟩]
    hiterates (hvisits _ (by decide) (by decide))
  obtain ⟨first, second, hrun, hswapped, hne⟩ : ∃ first second,
      hydrateNodes 2 twins [⟨1, none⟩, ⟨2, none⟩, ⟨3, none⟩] = .done first ∧
      hydrateNodes 2 twins [⟨1, none⟩, ⟨3, none⟩, ⟨2, none⟩] = .done second ∧
      first ≠ second := ⟨_, _, rfl, rfl, by decide⟩
  have hnodesFirst : nodes = first := Run.done.inj
    ((hydrateNodes_mono hfirst (Nat.le_max_left fuel 2)).symm.trans
      (hydrateNodes_mono hrun (Nat.le_max_right fuel 2)))
  have hnodesSecond : nodes = second := Run.done.inj
    ((hydrateNodes_mono hsecond (Nat.le_max_left more 2)).symm.trans
      (hydrateNodes_mono hswapped (Nat.le_max_right more 2)))
  exact hne (hnodesFirst.symm.trans hnodesSecond)

/-! ## Agreeing parents and child lists -/

/-- Every existing node is listed exactly by the node it names as its parent. -/
def ListsChildren (nodes : HashMap NodeId GodotNode) : Prop :=
  ∀ id node parentId parent, nodes.lookup id = some node → nodes.lookup parentId = some parent →
    (id ∈ parent.childNodeIds ↔ node.parentId = some parentId)

/-- No two children of an existing parent carry the same name and parent fallback. -/
def DistinctNames (nodes : HashMap NodeId GodotNode) : Prop :=
  ∀ id node other child parentId, nodes.lookup id = some node →
    nodes.lookup other = some child → node.parentId = some parentId →
    child.parentId = some parentId → parentId ∈ nodes →
    child.parentPathFallback = node.parentPathFallback → child.name = node.name → other = id

theorem mem_readsNames_iff {nodes : HashMap NodeId GodotNode} (hlists : ListsChildren nodes)
    {id other : NodeId} : other ∈ readsNames nodes id ↔ other ≠ id ∧
      ∃ node child parentId, nodes.lookup id = some node ∧ nodes.lookup other = some child ∧
        node.parentId = some parentId ∧ child.parentId = some parentId ∧ parentId ∈ nodes ∧
        child.parentPathFallback = node.parentPathFallback := by
  constructor
  · rintro ⟨node, parentId, parent, hnode, hparentId, hparent, hlisted, hne, found, child,
      hfound, hchild, hfallback⟩
    cases hnode.symm.trans hfound
    exact ⟨hne, node, child, parentId, hnode, hchild, hparentId,
      (hlists other child parentId parent hchild hparent).mp hlisted,
      Finmap.mem_of_lookup_eq_some hparent, hfallback⟩
  · rintro ⟨hne, node, child, parentId, hnode, hchild, hparentId, hchildParent, hmem, hfallback⟩
    obtain ⟨parent, hparent⟩ := Finmap.mem_iff.mp hmem
    exact ⟨node, parentId, parent, hnode, hparentId, hparent,
      (hlists other child parentId parent hchild hparent).mpr hchildParent, hne, node, child,
      hnode, hchild, hfallback⟩

/-- Nodes are compared with each other. -/
theorem mutual_readsNames {nodes : HashMap NodeId GodotNode} (hlists : ListsChildren nodes)
    {id other : NodeId} (hother : other ∈ readsNames nodes id) : id ∈ readsNames nodes other := by
  obtain ⟨hne, node, child, parentId, hnode, hchild, hparentId, hchildParent, hmem, hfallback⟩ :=
    (mem_readsNames_iff hlists).mp hother
  exact (mem_readsNames_iff hlists).mpr ⟨hne.symm, child, node, parentId, hchild, hnode,
    hchildParent, hparentId, hmem, hfallback.symm⟩

/-- With agreeing parents and child lists, settled names are distinct names. -/
theorem namesSettled_iff_distinctNames {nodes : HashMap NodeId GodotNode}
    (hlists : ListsChildren nodes) : NamesSettled nodes ↔ DistinctNames nodes := by
  have hsettled : NamesSettled nodes ↔
      ∀ id, ¬ Renaming.Collides (readsNames nodes) (nodeName nodes) id :=
    Renaming.settled_iff_forall_not_collides fun id other => mutual_readsNames hlists
  rw [hsettled]
  constructor
  · intro hfree id node other child parentId hnode hchild hparentId hchildParent hmem
      hfallback hname
    by_contra hne
    refine hfree id ⟨other, (mem_readsNames_iff hlists).mpr ⟨hne, node, child, parentId, hnode,
      hchild, hparentId, hchildParent, hmem, hfallback⟩, ?_⟩
    rw [nodeName_of_lookup hnode, nodeName_of_lookup hchild, hname]
  · rintro hdistinct id ⟨other, hother, hname⟩
    obtain ⟨hne, node, child, parentId, hnode, hchild, hparentId, hchildParent, hmem,
      hfallback⟩ := (mem_readsNames_iff hlists).mp hother
    rw [nodeName_of_lookup hnode, nodeName_of_lookup hchild] at hname
    exact hne (hdistinct id node other child parentId hnode hchild hparentId hchildParent hmem
      hfallback hname)

end Backstitch
