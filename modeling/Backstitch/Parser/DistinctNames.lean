/-
# Siblings with distinct names

Godot tells the children of one node apart by name.  A merged document may hold
two children of one name; `hydrate_nodes` counts up the number at the end of a
name until no sibling carries it.  The count cannot run out below the largest
`u64`, so every visit ends, and of two siblings the one visited later avoids the
name of the other.
-/

import Backstitch.Parser.Replicas
import Mathlib.Data.List.TakeWhile
import Mathlib.Tactic.FinCases

namespace Backstitch

/-! ## Numbered names -/

/-- A text on one line to which a number can be added and told apart again. -/
structure IsStem (stem : String) : Prop where
  oneLine : '\n' ∉ stem.toList
  noDigit : stem.toList.reverse.takeWhile isDecimalDigit = []

def numbered (stem : String) (number : ℕ) : String := stem ++ displayInteger number

theorem isDecimalDigit_of_isDigit {char : Char} (hdigit : char.isDigit = true) :
    isDecimalDigit char = true := by
  apply List.any_eq_true.mpr
  refine ⟨0x30, List.mem_cons_self, ?_⟩
  obtain ⟨hlower, hupper⟩ : '0' ≤ char ∧ char ≤ '9' := by
    simpa [Char.isDigit, Char.le_def] using hdigit
  rw [Bool.and_eq_true, decide_eq_true_eq, decide_eq_true_eq]
  exact ⟨UInt32.le_iff_toNat_le.mp hlower, UInt32.le_iff_toNat_le.mp hupper⟩

/-- A number is found again behind its stem. -/
theorem IsStem.numberSuffix_numbered {stem : String} (hstem : IsStem stem) (number : ℕ) :
    numberSuffix (numbered stem number) = some (stem, displayInteger number) := by
  have hdigits : (displayInteger number).toList = Nat.toDigits 10 number :=
    toList_displayInteger_ofNat number
  have hall : ∀ char ∈ (Nat.toDigits 10 number).reverse, isDecimalDigit char = true := by
    intro char hchar
    apply isDecimalDigit_of_isDigit
    exact Nat.isDigit_of_mem_toDigits (by decide) (by decide) (List.mem_reverse.mp hchar)
  have hline : stem.toList.reverse.takeWhile (fun char => decide (char ≠ '\n')) =
      stem.toList.reverse := by
    apply List.takeWhile_eq_self_iff.mpr
    intro char hchar
    apply decide_eq_true
    rintro rfl
    exact hstem.oneLine (List.mem_reverse.mp hchar)
  have hdrop : stem.toList.reverse.dropWhile isDecimalDigit = stem.toList.reverse := by
    have hsplit := List.takeWhile_append_dropWhile (p := isDecimalDigit)
      (l := stem.toList.reverse)
    rwa [hstem.noDigit, List.nil_append] at hsplit
  have hreversed : (numbered stem number).toList.reverse =
      (Nat.toDigits 10 number).reverse ++ stem.toList.reverse := by
    rw [numbered, String.toList_append, hdigits, List.reverse_append]
  unfold numberSuffix
  dsimp only
  rw [hreversed, List.takeWhile_append_of_pos hall, List.dropWhile_append_of_pos hall,
    hstem.noDigit, hdrop, List.append_nil, List.reverse_reverse,
    if_neg Nat.toDigits_ne_nil, hline, List.reverse_reverse, ← hdigits, String.ofList_toList,
    String.ofList_toList]

theorem parseDigits_displayInteger (number : ℕ) :
    parseDigits (displayInteger number).toList = some number := by
  rw [← parseDigits_toDigits number]
  exact congrArg parseDigits (toList_displayInteger_ofNat number)

theorem IsStem.numbered_injective {stem : String} (hstem : IsStem stem) :
    Function.Injective (numbered stem) := by
  intro first second hsame
  have hsuffix := hstem.numberSuffix_numbered first
  rw [hsame, hstem.numberSuffix_numbered second] at hsuffix
  have hdigits : displayInteger second = displayInteger first := by
    simpa using hsuffix
  have hparse := parseDigits_displayInteger first
  rw [← hdigits, parseDigits_displayInteger second] at hparse
  exact (Option.some.inj hparse).symm

/-- Below the largest `u64` the next name has the next number. -/
theorem IsStem.incrementName_numbered {stem : String} (hstem : IsStem stem) {number : ℕ}
    (hlt : number + 1 < 2 ^ 64) :
    incrementName (numbered stem number) = .done (numbered stem (number + 1)) := by
  unfold incrementName
  rw [hstem.numberSuffix_numbered number]
  dsimp only
  rw [parseDigits_displayInteger]
  dsimp only
  rw [if_pos (Nat.lt_of_succ_lt hlt), numbered]
  congr 3
  omega

/-- The name is on one line, and the digits it ends in, if any, are ASCII and
leave room for `count` more numbers in a `u64`. -/
def Countable (count : ℕ) (name : String) : Prop :=
  '\n' ∉ name.toList ∧ ∀ stem digits, numberSuffix name = some (stem, digits) →
    ∃ number, parseDigits digits.toList = some number ∧ number + count < 2 ^ 64 - 1

theorem isStem_of_numberSuffix_eq_none {name : String} (hline : '\n' ∉ name.toList)
    (hnone : numberSuffix name = none) : IsStem name := by
  refine ⟨hline, ?_⟩
  unfold numberSuffix at hnone
  dsimp only at hnone
  split at hnone
  · rename_i hempty
    exact List.reverse_eq_nil_iff.mp hempty
  · nomatch hnone

theorem isStem_of_numberSuffix_eq_some {name stem digits : String}
    (hsome : numberSuffix name = some (stem, digits)) : IsStem stem := by
  unfold numberSuffix at hsome
  dsimp only at hsome
  split at hsome
  · nomatch hsome
  · obtain ⟨rfl, -⟩ := Prod.mk.inj (Option.some.inj hsome)
    constructor
    · intro hmem
      rw [String.toList_ofList] at hmem
      simpa using List.mem_takeWhile_imp (List.mem_reverse.mp hmem)
    · rw [String.toList_ofList, List.reverse_reverse]
      have hhead := List.head?_dropWhile_not isDecimalDigit name.toList.reverse
      cases hbefore : name.toList.reverse.dropWhile isDecimalDigit with
      | nil => rfl
      | cons char before =>
          rw [hbefore] at hhead
          have hchar : isDecimalDigit char = false := hhead
          rw [List.takeWhile_cons]
          split
          · rw [List.takeWhile_cons, hchar]
            rfl
          · rfl

/-! ## Every visit ends -/

/-- The numbered names after a countable one: all greater than its own number. -/
theorem Countable.exists_stem {count : ℕ} {name : String} (hname : Countable count name)
    (hcount : 0 < count) :
    ∃ stem first, IsStem stem ∧ (first ≤ 1 ∨ first + count < 2 ^ 64) ∧
      incrementName name = .done (numbered stem first) ∧
      ∀ number, first ≤ number → name ≠ numbered stem number := by
  obtain ⟨hline, hdigits⟩ := hname
  cases hsuffix : numberSuffix name with
  | none =>
      have hstem := isStem_of_numberSuffix_eq_none hline hsuffix
      refine ⟨name, 1, hstem, .inl le_rfl, ?_, ?_⟩
      · rw [incrementName, hsuffix]
        rfl
      · intro number _ hsame
        rw [hsame, hstem.numberSuffix_numbered] at hsuffix
        nomatch hsuffix
  | some found =>
      obtain ⟨stem, digits⟩ := found
      have hstem := isStem_of_numberSuffix_eq_some hsuffix
      obtain ⟨number, hparse, hlt⟩ := hdigits stem digits hsuffix
      refine ⟨stem, number + 1, hstem, .inr (by omega), ?_, ?_⟩
      · unfold incrementName
        rw [hsuffix]
        dsimp only
        rw [hparse]
        dsimp only
        rw [if_pos (by omega), numbered]
        congr 3
        omega
      · intro later hlater hsame
        rw [hsame, hstem.numberSuffix_numbered] at hsuffix
        obtain ⟨-, rfl⟩ := Prod.mk.inj (Option.some.inj hsuffix)
        rw [parseDigits_displayInteger] at hparse
        have heq := Option.some.inj hparse
        omega

/-- A countable name is renamed until it is fresh, whatever other names are taken. -/
theorem Countable.exists_fresh {count : ℕ} {name : String} (hname : Countable (count + 1) name)
    (hfits : count < 2 ^ 64) {taken : Set String} (hfinite : taken.Finite)
    (htaken : taken.ncard ≤ count) : ∃ result, Renaming.Fresh incrementName taken name result := by
  obtain ⟨stem, first, hstem, hroom, hfirst, hlater⟩ := hname.exists_stem (Nat.succ_pos count)
  let sequence : ℕ → String := fun step =>
    step.casesOn name fun step => numbered stem (first + step)
  apply @Renaming.Fresh.exists_of_injOn _ _ _ sequence count hfinite htaken
  · intro step hstep
    cases step with
    | zero => exact hfirst
    | succ step => exact hstem.incrementName_numbered (by omega)
  · intro one _ two _ hsame
    cases one with
    | zero =>
        cases two with
        | zero => rfl
        | succ two => exact absurd hsame (hlater _ (Nat.le_add_right first two))
    | succ one =>
        cases two with
        | zero => exact absurd hsame.symm (hlater _ (Nat.le_add_right first one))
        | succ two =>
            have heq := hstem.numbered_injective hsame
            omega

/-! ## What the document holds -/

/-- Stored nodes that can be read and renamed.  There are at most as many as a
`usize` counts. -/
structure Hydratable (order : List (Entry String GodotNode)) : Prop where
  readable : ∀ entry ∈ order, ∃ id, NodeId.fromStr entry.1 = .done id
  fits : order.length < 2 ^ 64
  countable : ∀ entry ∈ order, Countable order.length entry.2.name

section Collected

variable {order : List (Entry String GodotNode)} {nodes : HashMap NodeId GodotNode}

/-- Every collected node is a stored one. -/
theorem exists_mem_of_collectNodes (hcollect : collectNodes order = .done nodes) {id : NodeId}
    {node : GodotNode} (hnode : nodes.lookup id = some node) :
    ∃ entry ∈ order, entry.2 = node := by
  obtain ⟨entries, hentries, hnodes⟩ := Run.bind_eq_done_iff.mp hcollect
  cases hnodes
  have hmem := HashMap.mem_of_lookup_collect hnode
  obtain ⟨entry, hentry, hread⟩ := Run.exists_of_mem_mapM hentries hmem
  exact ⟨entry, hentry, (readKey_eq_done_iff.mp hread).2⟩

/-- Collecting makes no more nodes than there are entries. -/
theorem card_keys_le_of_collectNodes (hcollect : collectNodes order = .done nodes) :
    nodes.keys.card ≤ order.length := by
  obtain ⟨entries, hentries, hnodes⟩ := Run.bind_eq_done_iff.mp hcollect
  cases hnodes
  have hsubset : (HashMap.collect entries).keys ⊆ (entries.map Sigma.fst).toFinset := by
    intro id hid
    exact List.mem_toFinset.mpr (HashMap.mem_collect.mp (Finmap.mem_keys.mp hid))
  calc (HashMap.collect entries).keys.card
      ≤ (entries.map Sigma.fst).toFinset.card := Finset.card_le_card hsubset
    _ ≤ (entries.map Sigma.fst).length := List.toFinset_card_le _
    _ = order.length := by
        rw [List.length_map, (Run.mapM_eq_done_iff.mp hentries).length_eq]

/-- A node is compared with fewer nodes than there are. -/
theorem readsNames_finite (nodes : HashMap NodeId GodotNode) (id : NodeId) :
    (readsNames nodes id).Finite :=
  nodes.keys.finite_toSet.subset fun _ hother =>
    Finmap.mem_keys.mpr (mem_of_mem_readsNames hother).2.1

theorem ncard_readsNames_lt {id : NodeId} (hid : id ∈ nodes) :
    (readsNames nodes id).ncard < nodes.keys.card := by
  have hsubset : readsNames nodes id ⊆ (nodes.keys.erase id : Finset NodeId) := by
    intro other hother
    obtain ⟨-, hmem, hne⟩ := mem_of_mem_readsNames hother
    exact Finset.mem_erase.mpr ⟨hne, Finmap.mem_keys.mpr hmem⟩
  calc (readsNames nodes id).ncard
      ≤ (nodes.keys.erase id).card := by
        rw [← Set.ncard_coe_finset]
        exact Set.ncard_le_ncard hsubset (Finset.finite_toSet _)
    _ < nodes.keys.card := Finset.card_erase_lt_of_mem (Finmap.mem_keys.mpr hid)

/-- Every visit to a collected node ends. -/
theorem Hydratable.exists_fresh (hstored : Hydratable order)
    (hcollect : collectNodes order = .done nodes) {id : NodeId} (hid : id ∈ nodes)
    (names : NodeId → String) :
    ∃ name, Renaming.Fresh incrementName (Set.image names (readsNames nodes id))
      (nodeName nodes id) name := by
  obtain ⟨node, hnode⟩ := Finmap.mem_iff.mp hid
  obtain ⟨entry, hentry, rfl⟩ := exists_mem_of_collectNodes hcollect hnode
  rw [nodeName_of_lookup hnode]
  have hname := hstored.countable entry hentry
  have hfits := hstored.fits
  have hcard := card_keys_le_of_collectNodes hcollect
  have hreads := ncard_readsNames_lt hid
  obtain ⟨count, hcount⟩ := Nat.exists_eq_add_of_lt (Nat.lt_of_lt_of_le
    (Nat.zero_lt_of_lt hreads) hcard)
  rw [Nat.zero_add] at hcount
  rw [hcount] at hname
  apply hname.exists_fresh (by omega) ((readsNames_finite nodes id).image names)
  have himage := Set.ncard_image_le (f := names) (readsNames_finite nodes id)
  omega

end Collected

/-! ## After the visits -/

/-- Two children that their common parent lists, alike but for their names, have
different names. -/
def TellsSiblingsApart (nodes : HashMap NodeId GodotNode) : Prop :=
  ∀ id other node child parentId parent, id ≠ other → nodes.lookup id = some node →
    nodes.lookup other = some child → node.parentId = some parentId →
    child.parentId = some parentId → nodes.lookup parentId = some parent →
    id ∈ parent.childNodeIds → other ∈ parent.childNodeIds →
    node.parentPathFallback = child.parentPathFallback → node.name ≠ child.name

/-- A node that looks like none of its siblings comes back as it was. -/
def KeepsLoneNames (nodes result : HashMap NodeId GodotNode) : Prop :=
  ∀ id node, nodes.lookup id = some node →
    (∀ other child, other ≠ id → nodes.lookup other = some child →
      child.parentId = node.parentId → child.parentPathFallback = node.parentPathFallback →
      child.name ≠ node.name) →
    result.lookup id = some node

section Visited

variable {nodes result : HashMap NodeId GodotNode} {names : NodeId → String}
  {keys : List NodeId}

theorem Renamed.tellsSiblingsApart (hresult : Renamed nodes names result)
    (hvisits : Renaming.Visits incrementName (readsNames nodes) (nodeName nodes) keys names)
    (honce : keys.Nodup) (hkeys : ∀ id, id ∈ keys ↔ id ∈ nodes) : TellsSiblingsApart result := by
  intro id other node child parentId parent hne hnode hchild hparentId hchildParent hparent
    hlisted hlistedOther hfallback
  have hid := hresult.mem_iff.mp (Finmap.mem_of_lookup_eq_some hnode)
  have hother := hresult.mem_iff.mp (Finmap.mem_of_lookup_eq_some hchild)
  have hreads : other ∈ readsNames nodes id := by
    rw [← hresult.readsNames_eq]
    exact ⟨node, parentId, parent, hnode, hparentId, hparent, hlistedOther, hne.symm, node,
      child, hnode, hchild, hfallback.symm⟩
  have hmutual : id ∈ readsNames nodes other := by
    rw [← hresult.readsNames_eq]
    exact ⟨child, parentId, parent, hchild, hchildParent, hparent, hlisted, hne, child, node,
      hchild, hnode, hfallback⟩
  have hnames := hvisits.ne_of_mutual honce ((hkeys id).mpr hid) ((hkeys other).mpr hother) hne
    hreads hmutual
  rwa [← hresult.nodeName_eq hid, ← hresult.nodeName_eq hother, nodeName_of_lookup hnode,
    nodeName_of_lookup hchild] at hnames

theorem Renamed.keepsLoneNames (hresult : Renamed nodes names result)
    (hvisits : Renaming.Visits incrementName (readsNames nodes) (nodeName nodes) keys names)
    (hlists : ListsChildren nodes) : KeepsLoneNames nodes result := by
  intro id node hnode hlone
  have hfree : nodeName nodes id ∉ Set.image (nodeName nodes) (readsNames nodes id) := by
    rintro ⟨other, hother, hname⟩
    obtain ⟨hne, found, child, parentId, hfound, hchild, hparentId, hchildParent, -, hfallback⟩ :=
      (mem_readsNames_iff hlists).mp hother
    cases hnode.symm.trans hfound
    rw [nodeName_of_lookup hchild, nodeName_of_lookup hnode] at hname
    exact hlone other child hne hchild (hchildParent.trans hparentId.symm) hfallback hname
  have hname := hvisits.eq_of_mutual hfree fun other hother => mutual_readsNames hlists hother
  rw [hresult id, hnode, Option.map_some, hname, nodeName_of_lookup hnode]
  rfl

end Visited

/-- **Hydration ends, changes names only and tells siblings apart; where parents
and child lists agree, a name that no sibling shares is kept.** -/
theorem exists_hydrateNodes {order : List (Entry String GodotNode)} {keys : List NodeId}
    (hstored : Hydratable order) (hvisits : VisitsKeys order keys) :
    ∃ nodes result fuel, collectNodes order = .done nodes ∧
      hydrateNodes fuel order keys = .done result ∧
      (∃ names, Renamed nodes names result) ∧ TellsSiblingsApart result ∧
      (ListsChildren nodes → KeepsLoneNames nodes result) := by
  obtain ⟨nodes, hcollect⟩ := exists_collectNodes_of_readable hstored.readable
  obtain ⟨honce, hkeys⟩ := hvisits nodes hcollect
  obtain ⟨names, hnames⟩ := Renaming.exists_visits honce fun id hid =>
    hstored.exists_fresh hcollect ((hkeys id).mp hid)
  obtain ⟨result, hresult⟩ := exists_renamed nodes names
  obtain ⟨fuel, hdone⟩ := (exists_dedupeNames_iff fun id hid => (hkeys id).mp hid).mpr
    ⟨names, hnames, hresult⟩
  refine ⟨nodes, result, fuel, hcollect, ?_, ⟨names, hresult⟩, ?_, ?_⟩
  · rw [hydrateNodes_of_collectNodes hcollect, hdone]
  · exact hresult.tellsSiblingsApart hnames honce hkeys
  · exact hresult.keepsLoneNames hnames

theorem countable_of_numberSuffix_eq_none {count : ℕ} {name : String}
    (hline : '\n' ∉ name.toList) (hnone : numberSuffix name = none) : Countable count name :=
  ⟨hline, fun _ _ hsome => nomatch hnone.symm.trans hsome⟩

theorem hydratable_twins : Hydratable twins where
  readable := by
    intro entry hentry
    fin_cases hentry
    · exact ⟨⟨1, none⟩, by decide⟩
    · exact ⟨⟨2, none⟩, by decide⟩
    · exact ⟨⟨3, none⟩, by decide⟩
  fits := by decide
  countable := by
    intro entry hentry
    fin_cases hentry
    all_goals exact countable_of_numberSuffix_eq_none (by decide) (by decide)

/-- The two children called `A` come back under two names. -/
theorem exists_hydrateNodes_twins : ∃ nodes result fuel, collectNodes twins = .done nodes ∧
    hydrateNodes fuel twins [⟨1, none⟩, ⟨2, none⟩, ⟨3, none⟩] = .done result ∧
    (∃ names, Renamed nodes names result) ∧ TellsSiblingsApart result ∧
    (ListsChildren nodes → KeepsLoneNames nodes result) := by
  apply exists_hydrateNodes hydratable_twins
  obtain ⟨nodes, hcollect, hkeys⟩ : ∃ nodes, collectNodes twins = .done nodes ∧
      nodes.keys = {⟨1, none⟩, ⟨2, none⟩, ⟨3, none⟩} := ⟨_, rfl, by decide⟩
  exact visitsKeys_of_keys_eq hcollect (by decide) (hkeys.trans (by decide))

end Backstitch
