/-
# The branch picker

The editor asks for a branch by its id and gets its children sorted by name; to compare two
children it asks for each of them in the same way, so the call goes down the whole tree.  The
branch picker goes down the tree once more and adds an item for every branch that it finds
available.  Both go over one copy of the metadata, whose map comes in any order.
-/

import Backstitch.Branches.BranchTree
import Backstitch.Library.Cycles
import Backstitch.Library.Run
import Backstitch.Library.StableSort
import Backstitch.Library.TopDown
import Mathlib.Data.String.Basic
import Mathlib.Order.WithBot

namespace Backstitch

universe u w

open Relation

variable {κ χ : Type u}

/-- `is_available`: neither `get_merge_into` nor `get_reverted_to` has something to show. -/
def NamedBranch.isAvailable (branch : NamedBranch κ χ) : Bool :=
  branch.mergeInto.isNone && branch.revertedTo.all fun ref => ref.heads.card == 0

theorem NamedBranch.isAvailable_of_open {branch : NamedBranch κ χ} (hopen : ¬ branch.IsPreview) :
    branch.isAvailable = true := by
  obtain ⟨hmerge, hrevert⟩ := not_or.mp hopen
  rw [Option.not_isSome_iff_eq_none] at hmerge hrevert
  simp [isAvailable, hmerge, hrevert]

/-- `BranchWrapper`. -/
structure BranchWrapper (κ χ : Type u) where
  state : NamedBranch κ χ
  children : List κ

/-- An item of the picker: its label, whether it warns that the branch is not loaded, and the id
of the branch. -/
structure PickerItem (κ : Type u) where
  label : String
  warning : Bool
  metadata : κ

section Calls

variable [DecidableEq κ] (lower : String → String) (metadata : BranchesMetadataDoc κ χ)
  (order : List (Entry κ (NamedBranch κ χ)))

def getBranchChildren (id : κ) : List κ :=
  (order.filter fun entry => decide (entry.2.getParent = some id)).map Sigma.fst

/-- What the comparison of two children goes by: a branch that is not found comes first. -/
def nameKey : Option (BranchWrapper κ χ) → WithBot String
  | none => ⊥
  | some branch => lower branch.state.name

/-- `get_branch`. -/
def getBranch : ℕ → κ → Run (Option (BranchWrapper κ χ))
  | 0, _ => .running
  | fuel + 1, id =>
      match metadata.branches.lookup id with
      | none => .done none
      | some state =>
          let children := getBranchChildren order id
          -- `sort_by` compares nothing where there are fewer than two items.
          if children.length < 2 then .done (some { state, children })
          else do
            let found ← children.mapM fun child => do
              let branch ← getBranch fuel child
              return (child, branch)
            let sorted := sortByKey (fun pair => nameKey lower pair.2) found
            return some { state, children := sorted.map Prod.fst }

/-- `_add_branch_to_picker`, of what `get_branch` has found; there is no branch to ask where it
has found none. -/
def addBranchToPicker (isBranchLoaded : κ → Bool) :
    ℕ → Option (BranchWrapper κ χ) → (indentation : String) → (isLast : Bool) →
      Run (List (PickerItem κ))
  | 0, _, _, _ => .running
  | _ + 1, none, _, _ => .panic
  | fuel + 1, some branch, indentation, isLast =>
      if branch.state.isAvailable then do
        let isRoot := branch.state.getParent.isNone
        let connection := if isLast then "└─ " else "├─ "
        let label := if isRoot then branch.state.name
          else indentation ++ connection ++ branch.state.name
        let below := if isRoot then "" else indentation ++ (if isLast then "    " else "│   ")
        let lists ← branch.children.zipIdx.mapM fun child => do
          let found ← getBranch lower metadata order fuel child.1
          addBranchToPicker isBranchLoaded fuel found below (child.2 + 1 == branch.children.length)
        return { label, warning := !isBranchLoaded branch.state.id, metadata := branch.state.id } ::
          lists.flatten
      else .done []

/-- `populate`. -/
def populate (isBranchLoaded : κ → Bool) (checkedOut : κ) (fuel : ℕ) :
    Run (List (PickerItem κ)) := do
  let mainBranch ← getBranch lower metadata order fuel metadata.mainDocId
  let checkedOutBranch ← getBranch lower metadata order fuel checkedOut
  if checkedOutBranch.isNone || mainBranch.isNone then return []
  addBranchToPicker lower metadata order isBranchLoaded fuel mainBranch "" false

/-! ## What the calls return -/

/-- The name that a branch is sorted by. -/
def BranchesMetadataDoc.nameOf (id : κ) : WithBot String :=
  match metadata.branches.lookup id with
  | none => ⊥
  | some branch => lower branch.name

def BranchesMetadataDoc.parentOf (id : κ) : Option κ :=
  (metadata.branches.lookup id).bind NamedBranch.getParent

def sortedChildren (id : κ) : List κ :=
  sortByKey (metadata.nameOf lower) (getBranchChildren order id)

/-- What `get_branch` returns. -/
def branchView (id : κ) : Option (BranchWrapper κ χ) :=
  (metadata.branches.lookup id).map fun state =>
    { state, children := sortedChildren lower metadata order id }

/-- The children for which the picker has an item. -/
def pickedChildren (id : κ) : List κ :=
  (sortedChildren lower metadata order id).filter fun child =>
    (metadata.branches.lookup child).any NamedBranch.isAvailable

/-- One branch was forked from another. -/
def BranchesMetadataDoc.ForkedFrom (child parent : κ) : Prop :=
  metadata.parentOf child = some parent

/-- Each available branch has one item, below the branch that it was forked from and among its
siblings where its name belongs. -/
structure ListsBranches (ids : List κ) : Prop where
  nodup : ids.Nodup
  mem_iff : ∀ id, id ∈ ids ↔
    ∃ branch, metadata.branches.lookup id = some branch ∧ branch.isAvailable = true
  topDown : TopDown (fun parent => ids.filter fun id => decide (metadata.parentOf id = some parent))
    [metadata.mainDocId] ids
  sorted : ∀ parent, (ids.filter fun id => decide (metadata.parentOf id = some parent)).Pairwise
    fun first second => metadata.nameOf lower first ≤ metadata.nameOf lower second

end Calls

section Walk

variable [DecidableEq κ] {π : Type w} {main : κ} {state : BranchTree κ χ π} {client : π}
  {lower : String → String} {metadata : BranchesMetadataDoc κ χ}
  {order : List (Entry κ (NamedBranch κ χ))}

theorem BranchesMetadataDoc.forkedFrom_iff {id parent : κ} {branch : NamedBranch κ χ}
    (hlookup : metadata.branches.lookup id = some branch) :
    metadata.ForkedFrom id parent ↔ branch.getParent = some parent := by
  rw [ForkedFrom, parentOf, hlookup, Option.bind_some]

theorem BranchesMetadataDoc.not_forkedFrom_of_root {id parent : κ} {branch : NamedBranch κ χ}
    (hlookup : metadata.branches.lookup id = some branch) (hroot : branch.forkedFrom = none) :
    ¬ metadata.ForkedFrom id parent := by
  intro hforked
  have hparent := (forkedFrom_iff hlookup).mp hforked
  rw [NamedBranch.getParent, hroot] at hparent
  cases hparent

theorem nameKey_branchView (id : κ) :
    nameKey lower (branchView lower metadata order id) = metadata.nameOf lower id := by
  unfold branchView BranchesMetadataDoc.nameOf
  cases metadata.branches.lookup id <;> rfl

theorem mem_getBranchChildren (horder : metadata.branches.Iterates order) {id child : κ} :
    child ∈ getBranchChildren order id ↔ metadata.ForkedFrom child id := by
  simp only [getBranchChildren, BranchesMetadataDoc.ForkedFrom, BranchesMetadataDoc.parentOf,
    Option.bind_eq_some_iff, List.mem_map, List.mem_filter, decide_eq_true_eq]
  constructor
  · rintro ⟨entry, ⟨hentry, hparent⟩, rfl⟩
    exact ⟨entry.2, horder.mem_iff.mp hentry, hparent⟩
  · rintro ⟨branch, hlookup, hparent⟩
    exact ⟨⟨child, branch⟩, ⟨horder.mem_iff.mpr hlookup, hparent⟩, rfl⟩

theorem nodup_getBranchChildren (horder : metadata.branches.Iterates order) (id : κ) :
    (getBranchChildren order id).Nodup :=
  horder.keys_nodup.sublist (List.filter_sublist.map _)

theorem mem_sortedChildren (horder : metadata.branches.Iterates order) {id child : κ} :
    child ∈ sortedChildren lower metadata order id ↔ metadata.ForkedFrom child id :=
  (sortByKey_perm _ _).mem_iff.trans (mem_getBranchChildren horder)

theorem mem_pickedChildren (horder : metadata.branches.Iterates order) {id child : κ} :
    child ∈ pickedChildren lower metadata order id ↔ metadata.ForkedFrom child id ∧
      ∃ branch, metadata.branches.lookup child = some branch ∧ branch.isAvailable = true := by
  rw [pickedChildren, List.mem_filter, mem_sortedChildren horder, Option.any_eq_true]

/-- Going on to the branches that were forked from a branch comes to an end. -/
theorem wellFounded_forkedFrom (hreads : BranchTree.ReadsTree main state client metadata) :
    WellFounded metadata.ForkedFrom := by
  have hfrom : ∀ {child parent : κ}, metadata.ForkedFrom child parent →
      FromMain main metadata.branches child := by
    intro child parent hforked
    obtain ⟨branch, hbranch, -⟩ := Option.bind_eq_some_iff.mp hforked
    exact hreads.fromMain child branch hbranch
  have hacyclic : ∀ id, FromMain main metadata.branches id →
      ¬ TransGen metadata.ForkedFrom id id := by
    intro id hfrom hcycle
    induction hfrom with
    | main hmain hroot _ =>
        obtain ⟨next, hforked, -⟩ := exists_next_of_cycle hcycle
        exact BranchesMetadataDoc.not_forkedFrom_of_root hmain hroot hforked
    | fork hid hparent _ _ _ ih =>
        obtain ⟨next, hforked, hrest⟩ := exists_next_of_cycle hcycle
        have hnext := (BranchesMetadataDoc.forkedFrom_iff hid).mp hforked
        obtain rfl := Option.some.inj (hparent.symm.trans hnext)
        exact ih hrest
  have hfinite : {id | id ∈ metadata.branches}.Finite :=
    metadata.branches.keys.finite_toSet.subset fun id hid => Finmap.mem_keys.mpr hid
  apply wellFounded_of_acyclic hfinite
  · intro child parent hforked
    cases hfrom hforked with
    | main hmain hroot _ =>
        exact absurd hforked (BranchesMetadataDoc.not_forkedFrom_of_root hmain hroot)
    | fork hid hown habove _ _ =>
        have hparent := (BranchesMetadataDoc.forkedFrom_iff hid).mp hforked
        obtain rfl := Option.some.inj (hown.symm.trans hparent)
        exact Finmap.mem_of_lookup_eq_some habove
  · intro id hcycle
    obtain ⟨next, hforked, -⟩ := exists_next_of_cycle hcycle
    exact hacyclic id (hfrom hforked) hcycle

/-- **`get_branch` ends**, whatever else is in the tree. -/
theorem getBranch_ends (hreads : BranchTree.ReadsTree main state client metadata)
    (horder : metadata.branches.Iterates order) (id : κ) :
    ∃ fuel, ∀ more, fuel ≤ more →
      getBranch lower metadata order more id = .done (branchView lower metadata order id) := by
  induction id using (wellFounded_forkedFrom hreads).induction with
  | _ id ih =>
      have hchildren : ∀ child ∈ getBranchChildren order id, ∃ fuel, ∀ more, fuel ≤ more →
          getBranch lower metadata order more child =
            .done (branchView lower metadata order child) :=
        fun child hchild => ih child ((mem_getBranchChildren horder).mp hchild)
      obtain ⟨fuel, hall⟩ := Run.exists_fuel_forall hchildren
      refine ⟨fuel + 1, fun more hmore => ?_⟩
      obtain ⟨more, rfl⟩ : ∃ less, more = less + 1 := ⟨more - 1, by omega⟩
      rw [getBranch, branchView]
      cases metadata.branches.lookup id with
      | none => rfl
      | some found =>
          have hsorted : ∀ pairs : List (κ × Option (BranchWrapper κ χ)),
              pairs = (getBranchChildren order id).map (fun child =>
                (child, branchView lower metadata order child)) →
              (sortByKey (fun pair => nameKey lower pair.2) pairs).map Prod.fst =
                sortedChildren lower metadata order id := by
            rintro _ rfl
            rw [sortByKey_map, List.map_map]
            simp only [nameKey_branchView]
            exact List.map_id _
          dsimp only
          split
          case isTrue hshort =>
            have hsame : sortedChildren lower metadata order id = getBranchChildren order id :=
              sortByKey_of_length_lt_two _ hshort
            rw [Option.map_some, hsame]
          case isFalse =>
            have hfound : (getBranchChildren order id).mapM (fun child => do
                let branch ← getBranch lower metadata order more child
                return (child, branch)) =
                .done ((getBranchChildren order id).map fun child =>
                  (child, branchView lower metadata order child)) := by
              apply Run.mapM_eq_done_map
              intro child hchild
              rw [hall more (by omega) child hchild]
              rfl
            rw [hfound, Run.done_bind, hsorted _ rfl]
            rfl

/-- **The picker goes through the tree below a branch**, and adds an item for every branch that is
available. -/
theorem addBranchToPicker_lists (hreads : BranchTree.ReadsTree main state client metadata)
    (horder : metadata.branches.Iterates order) (isBranchLoaded : κ → Bool) (id : κ) :
    ∀ branch, metadata.branches.lookup id = some branch →
      ∃ items : String → Bool → List (PickerItem κ), ∃ fuel, ∀ more, fuel ≤ more →
        ∀ indentation isLast,
          addBranchToPicker lower metadata order isBranchLoaded more
              (branchView lower metadata order id) indentation isLast =
            .done (items indentation isLast) ∧
          (branch.isAvailable = true → TopDown (pickedChildren lower metadata order) [id]
            ((items indentation isLast).map PickerItem.metadata)) ∧
          (branch.isAvailable = false → items indentation isLast = []) := by
  induction id using (wellFounded_forkedFrom hreads).induction with
  | _ id ih =>
      intro branch hlookup
      have hchildren : ∀ child ∈ sortedChildren lower metadata order id,
          ∃ items : String → Bool → List (PickerItem κ), ∃ fuel, ∀ more, fuel ≤ more →
            getBranch lower metadata order more child =
                .done (branchView lower metadata order child) ∧
              ∀ indentation isLast,
                addBranchToPicker lower metadata order isBranchLoaded more
                    (branchView lower metadata order child) indentation isLast =
                  .done (items indentation isLast) ∧
                ((metadata.branches.lookup child).any NamedBranch.isAvailable = true →
                  TopDown (pickedChildren lower metadata order) [child]
                    ((items indentation isLast).map PickerItem.metadata)) ∧
                ((metadata.branches.lookup child).any NamedBranch.isAvailable = false →
                  items indentation isLast = []) := by
        intro child hchild
        have hforked := (mem_sortedChildren horder).mp hchild
        obtain ⟨found, hfound, -⟩ := Option.bind_eq_some_iff.mp hforked
        obtain ⟨items, fuel, hitems⟩ := ih child hforked found hfound
        obtain ⟨enough, hview⟩ : ∃ enough, ∀ more, enough ≤ more →
            getBranch lower metadata order more child =
              .done (branchView lower metadata order child) := getBranch_ends hreads horder child
        refine ⟨items, max fuel enough, fun more hmore => ⟨hview more (by omega), ?_⟩⟩
        intro indentation isLast
        rw [hfound]
        exact hitems more (by omega) indentation isLast
      choose! items hitems using hchildren
      obtain ⟨fuel, hall⟩ := Run.exists_fuel_forall hitems
      let isRoot := branch.getParent.isNone
      let label := fun (indentation : String) (isLast : Bool) =>
        if isRoot then branch.name
        else indentation ++ (if isLast then "└─ " else "├─ ") ++ branch.name
      let below := fun (indentation : String) (isLast : Bool) =>
        if isRoot then "" else indentation ++ (if isLast then "    " else "│   ")
      let listing := fun (indentation : String) (isLast : Bool) (child : κ × ℕ) =>
        items child.1 (below indentation isLast)
          (child.2 + 1 == (sortedChildren lower metadata order id).length)
      refine ⟨fun indentation isLast => if branch.isAvailable then
          { label := label indentation isLast, warning := !isBranchLoaded branch.id,
            metadata := branch.id } ::
            ((sortedChildren lower metadata order id).zipIdx.map
              (listing indentation isLast)).flatten
        else [], fuel + 1, fun more hmore indentation isLast => ?_⟩
      obtain ⟨more, rfl⟩ : ∃ less, more = less + 1 := ⟨more - 1, by omega⟩
      have hmem : ∀ child ∈ (sortedChildren lower metadata order id).zipIdx,
          child.1 ∈ sortedChildren lower metadata order id := by
        intro child hchild
        rw [← List.zipIdx_map_fst 0 (sortedChildren lower metadata order id)]
        exact List.mem_map_of_mem hchild
      have hkeyed : branch.id = id := hreads.keyed id branch hlookup
      cases havailable : branch.isAvailable with
      | false =>
          refine ⟨?_, fun hno => absurd hno Bool.false_ne_true, fun _ => rfl⟩
          rw [branchView, hlookup, Option.map_some, addBranchToPicker]
          simp [havailable]
      | true =>
          refine ⟨?_, fun _ => ?_, fun hno => absurd hno.symm Bool.false_ne_true⟩
          · have hlists : (sortedChildren lower metadata order id).zipIdx.mapM (fun child => do
                let found ← getBranch lower metadata order more child.1
                addBranchToPicker lower metadata order isBranchLoaded more found
                  (below indentation isLast)
                  (child.2 + 1 == (sortedChildren lower metadata order id).length)) =
                .done ((sortedChildren lower metadata order id).zipIdx.map
                  (listing indentation isLast)) := by
              apply Run.mapM_eq_done_map
              intro child hchild
              obtain ⟨hview, hadds⟩ := hall more (by omega) child.1 (hmem child hchild)
              rw [hview, Run.done_bind]
              exact (hadds _ _).1
            rw [branchView, hlookup, Option.map_some, addBranchToPicker]
            dsimp only
            rw [if_pos havailable]
            exact (congrArg (fun run => run >>= _) hlists).trans rfl
          · have hbelow : TopDown (pickedChildren lower metadata order)
                (pickedChildren lower metadata order id)
                (((sortedChildren lower metadata order id).zipIdx.map
                  (listing indentation isLast)).flatten.map PickerItem.metadata) := by
              rw [List.map_flatten, List.map_map]
              have hroots : pickedChildren lower metadata order id =
                  ((sortedChildren lower metadata order id).zipIdx.map Prod.fst).filter
                    fun child => (metadata.branches.lookup child).any NamedBranch.isAvailable := by
                rw [List.zipIdx_map_fst]
                rfl
              rw [hroots]
              apply TopDown.filter_flatten
              · intro child hchild hkept
                exact ((hall more (by omega) child.1 (hmem child hchild)).2 _ _).2.1 hkept
              · intro child hchild hleft
                show (listing indentation isLast child).map PickerItem.metadata = []
                rw [show listing indentation isLast child = [] from
                  ((hall more (by omega) child.1 (hmem child hchild)).2 _ _).2.2 hleft]
                rfl
            dsimp only
            rw [if_pos rfl, List.map_cons, hkeyed, ← List.append_nil (List.map _ _)]
            exact .cons hbelow .nil

/-- **Every branch hangs in the tree**: in every run that keeps the tree, whoever asks for a branch
gets what the metadata has under its id, with the branches forked from it in the order of their
names, and the main branch leads to it through `get_branch_children`. -/
theorem hangsInTree_of_reachable [DecidableEq π]
    (hreach : (branchTree main).Reachable KeepsTree state)
    (hmetadata : state.metadataState client = some metadata)
    (horder : metadata.branches.Iterates order) (lower : String → String) (id : κ) :
    ∃ found : Option (BranchWrapper κ χ), (∃ fuel, ∀ more, fuel ≤ more →
        getBranch lower metadata order more id = .done found) ∧
      found.map BranchWrapper.state = metadata.branches.lookup id ∧
      ∀ branch, found = some branch →
        branch.children.Perm (getBranchChildren order id) ∧
        (branch.children.Pairwise fun first second =>
          metadata.nameOf lower first ≤ metadata.nameOf lower second) ∧
        (branch.state.forkedFrom = none ↔ id = metadata.mainDocId) ∧
        ReflTransGen (fun parent child => child ∈ getBranchChildren order parent)
          metadata.mainDocId id := by
  have hreads := BranchTree.readsTree_of_reachable hreach hmetadata
  refine ⟨branchView lower metadata order id, getBranch_ends hreads horder id, ?_, ?_⟩
  · rw [branchView, Option.map_map]
    cases metadata.branches.lookup id <;> rfl
  · intro branch hview
    obtain ⟨found, hfound, rfl⟩ := Option.map_eq_some_iff.mp hview
    rw [hreads.mainDocId]
    have hfrom := hreads.fromMain id found hfound
    obtain ⟨mainBranch, hmain, hroot, -⟩ := hreads.root
    refine ⟨sortByKey_perm _ _, sortByKey_pairwise _ _, ?_, ?_⟩
    · constructor
      · intro hnone
        cases hfrom with
        | main => rfl
        | fork hlookup hparent _ _ _ =>
            have hforked := (BranchesMetadataDoc.forkedFrom_iff hlookup).mpr hparent
            exact absurd hforked (BranchesMetadataDoc.not_forkedFrom_of_root hfound hnone)
      · rintro rfl
        rw [hmain] at hfound
        cases hfound
        exact hroot
    · clear hview hfound
      induction hfrom with
      | main => exact .refl
      | fork hlookup hparent _ _ _ ih =>
          refine ih.tail ((mem_getBranchChildren horder).mpr ?_)
          exact (BranchesMetadataDoc.forkedFrom_iff hlookup).mpr hparent

/-- What the picker goes through from the main branch is every available branch, once. -/
theorem listsBranches_of_topDown (hreads : BranchTree.ReadsTree main state client metadata)
    (horder : metadata.branches.Iterates order) {ids : List κ}
    (htopDown : TopDown (pickedChildren lower metadata order) [main] ids) :
    ListsBranches lower metadata ids := by
  obtain ⟨mainBranch, hmain, hroot, hmainOpen⟩ := hreads.root
  have hparent : ∀ above child, child ∈ pickedChildren lower metadata order above →
      metadata.parentOf child = some above :=
    fun above child hchild => ((mem_pickedChildren horder).mp hchild).1
  have hacyclic : ∀ id, ¬ TransGen
      (fun above child => child ∈ pickedChildren lower metadata order above) id id := by
    intro id hcycle
    have hswapped : TransGen (Function.swap metadata.ForkedFrom) id id :=
      TransGen.mono (fun above child hchild => hparent above child hchild) id id hcycle
    exact (wellFounded_forkedFrom hreads).transGen.irrefl.irrefl id (transGen_swap.mp hswapped)
  have hmainParent : metadata.parentOf main = none := by
    simp [BranchesMetadataDoc.parentOf, hmain, NamedBranch.getParent, hroot]
  have hnodup : ids.Nodup := by
    apply htopDown.nodup
    · intro first second child hfirst hsecond
      exact Option.some.inj ((hparent first child hfirst).symm.trans (hparent second child hsecond))
    · intro above
      exact ((sortByKey_perm _ _).nodup_iff.mpr (nodup_getBranchChildren horder above)).filter _
    · exact hacyclic
    · exact List.nodup_singleton main
    · intro first hfirst second hsecond
      rw [List.mem_singleton.mp hfirst, List.mem_singleton.mp hsecond]
      exact hacyclic main
  have hmem : ∀ id, id ∈ ids ↔
      ∃ branch, metadata.branches.lookup id = some branch ∧ branch.isAvailable = true := by
    intro id
    rw [htopDown.mem_iff]
    constructor
    · rintro ⟨root, hrootMem, hwalk⟩
      obtain rfl := List.mem_singleton.mp hrootMem
      rcases ReflTransGen.cases_tail hwalk with rfl | ⟨above, -, hchild⟩
      · exact ⟨mainBranch, hmain, NamedBranch.isAvailable_of_open hmainOpen⟩
      · exact ((mem_pickedChildren horder).mp hchild).2
    · rintro ⟨branch, hlookup, havailable⟩
      refine ⟨main, List.mem_singleton_self main, ?_⟩
      have hwalk : ∀ id, FromMain main metadata.branches id → ∀ branch,
          metadata.branches.lookup id = some branch → branch.isAvailable = true →
          ReflTransGen (fun above child => child ∈ pickedChildren lower metadata order above)
            main id := by
        intro id hfrom
        induction hfrom with
        | main => exact fun _ _ _ => .refl
        | fork hid hforked habove hopen _ ih =>
            intro branch hlookup havailable
            rw [hid] at hlookup
            cases hlookup
            refine (ih _ habove (NamedBranch.isAvailable_of_open hopen)).tail ?_
            refine (mem_pickedChildren horder).mpr ⟨?_, _, hid, havailable⟩
            exact (BranchesMetadataDoc.forkedFrom_iff hid).mpr hforked
      exact hwalk id (hreads.fromMain id branch hlookup) branch hlookup havailable
  have hfilter : ∀ above ∈ ids, pickedChildren lower metadata order above =
      ids.filter fun id => decide (metadata.parentOf id = some above) := by
    intro above habove
    rw [TopDown.filter_eq hparent htopDown hnodup, if_pos habove]
    intro root hrootMem above _ hsome
    rw [List.mem_singleton.mp hrootMem, hmainParent] at hsome
    cases hsome
  constructor
  case nodup => exact hnodup
  case mem_iff => exact hmem
  case topDown =>
    rw [hreads.mainDocId]
    exact htopDown.congr hfilter
  case sorted =>
    intro parent
    rw [TopDown.filter_eq hparent htopDown hnodup]
    · split
      · exact (sortByKey_pairwise _ _).filter _
      · rw [List.filter_singleton, hmainParent]
        simp
    · intro root hrootMem above _ hsome
      rw [List.mem_singleton.mp hrootMem, hmainParent] at hsome
      cases hsome

/-- **The branch picker lists every available branch once**, below the branch that it was forked
from, whatever order the map of branches comes in: in every run that keeps the tree, `populate`
ends over the metadata that any client has. -/
theorem listsBranches_of_reachable [DecidableEq π]
    (hreach : (branchTree main).Reachable KeepsTree state)
    (hmetadata : state.metadataState client = some metadata)
    (horder : metadata.branches.Iterates order) (lower : String → String)
    (isBranchLoaded : κ → Bool) {checkedOut : κ} (hcheckedOut : checkedOut ∈ metadata.branches) :
    ∃ items : List (PickerItem κ), (∃ fuel, ∀ more, fuel ≤ more →
        populate lower metadata order isBranchLoaded checkedOut more = .done items) ∧
      ListsBranches lower metadata (items.map PickerItem.metadata) := by
  have hreads := BranchTree.readsTree_of_reachable hreach hmetadata
  obtain ⟨mainBranch, hmain, hroot, hopen⟩ := hreads.root
  obtain ⟨branch, hbranch⟩ := Finmap.mem_iff.mp hcheckedOut
  obtain ⟨items, fuel, hitems⟩ :=
    addBranchToPicker_lists hreads horder isBranchLoaded main mainBranch hmain
  obtain ⟨enough, hviews⟩ : ∃ enough, ∀ more, enough ≤ more → ∀ id ∈ [main, checkedOut],
      getBranch lower metadata order more id = .done (branchView lower metadata order id) :=
    Run.exists_fuel_forall fun id _ => getBranch_ends hreads horder id
  have havailable := NamedBranch.isAvailable_of_open hopen
  refine ⟨items "" false, ⟨max fuel enough, fun more hmore => ?_⟩, ?_⟩
  · have hview := hviews more (by omega)
    rw [populate, hreads.mainDocId, hview main (by simp), Run.done_bind,
      hview checkedOut (by simp), Run.done_bind]
    rw [if_neg (by simp [branchView, hmain, hbranch])]
    exact (hitems more (by omega) "" false).1
  · exact listsBranches_of_topDown hreads horder ((hitems fuel le_rfl "" false).2.1 havailable)

end Walk

/-! ## A draft and a preview of its merge -/

/-- A new project. -/
def newProject : BranchTree ℕ ℕ Unit where
  docs _ := some (.create 0)
  sent := []
  metadataState _ := none
  checkedOut _ := none
  calls _ := .idle

/-- The client forks the main branch and then previews the merge of its fork. -/
def draftRun : List (BranchTreeAction ℕ ℕ Unit) :=
  [.ingestMetadataDocument (), .checkOut () (some 0), .createBranch () "draft" {7},
    .proceed () 1, .ingestMetadataDocument (), .checkOut () (some 1),
    .createMergePreviewBranch () {8} {7}, .proceed () 2, .ingestMetadataDocument ()]

/-- The metadata that the client has then. -/
def draftMetadata : BranchesMetadataDoc ℕ ℕ where
  mainDocId := 0
  branches := .collect
    [⟨0, ⟨⟨0, none, none, none⟩, "main"⟩⟩, ⟨1, ⟨⟨1, some ⟨0, {7}⟩, none, none⟩, "draft"⟩⟩,
      ⟨2, ⟨⟨2, some ⟨1, {8}⟩, some ⟨0, {7}⟩, none⟩, "main" ++ " <- " ++ "draft"⟩⟩]

theorem newProject_created : newProject.Created 0 := by
  refine ⟨⟨(), ?_⟩, rfl, fun _ => rfl, fun _ => rfl⟩
  funext client
  rfl

/-- Of one client with nothing on its way, one document tells whether an id is new. -/
theorem fresh_of_docs {state : BranchTree ℕ ℕ Unit} {doc : MetadataDoc ℕ ℕ} {id : ℕ}
    (hdocs : state.docs () = some doc) (hsent : state.sent = []) (hfresh : id ∉ doc.put) :
    ∀ found, state.Has found → id ∉ found.put := by
  rintro found (⟨client, hfound⟩ | hin)
  · cases hdocs.symm.trans hfound
    exact hfresh
  · rw [hsent] at hin
    cases hin

theorem open_of_read {state : BranchTree ℕ ℕ Unit} {found : NamedBranch ℕ ℕ}
    (hread : state.getCheckedOutBranchState () = some found) (hopen : ¬ found.IsPreview) :
    ∀ branch, state.getCheckedOutBranchState () = some branch → ¬ branch.IsPreview := by
  intro branch hbranch
  cases hread.symm.trans hbranch
  exact hopen

theorem keepsTree_checkOut {state : BranchTree ℕ ℕ Unit} {branch : Option ℕ}
    (hcall : state.calls () ≠ .discarding) : KeepsTree state (.checkOut () branch) :=
  hcall

theorem reachable_draftRun :
    (branchTree 0).Reachable KeepsTree ((branchTree 0).after newProject draftRun) := by
  apply System.Reachable.after (.start newProject_created)
  refine .cons trivial rfl (.cons (keepsTree_checkOut (by decide)) rfl ?_)
  refine .cons (open_of_read rfl (by decide)) rfl (.cons (fresh_of_docs rfl rfl (by decide)) rfl ?_)
  refine .cons trivial rfl (.cons (keepsTree_checkOut (by decide)) rfl ?_)
  refine .cons (open_of_read rfl (by decide)) rfl (.cons (fresh_of_docs rfl rfl (by decide)) rfl ?_)
  exact .cons trivial rfl trivial

theorem metadataState_draftRun :
    ((branchTree 0).after newProject draftRun).metadataState () = some draftMetadata := rfl

/-- The draft hangs below the main branch, with the preview below it. -/
theorem hangsInTree_draftRun : ∃ order fuel, ∃ draft : BranchWrapper ℕ ℕ,
    draftMetadata.branches.Iterates order ∧
      getBranch id draftMetadata order fuel 1 = .done (some draft) ∧
      draft.children.Perm (getBranchChildren order 1) ∧
      ReflTransGen (fun parent child => child ∈ getBranchChildren order parent) 0 1 := by
  obtain ⟨order, horder⟩ := draftMetadata.branches.exists_iterates
  obtain ⟨found, ⟨fuel, hfound⟩, hstate, hall⟩ :=
    hangsInTree_of_reachable reachable_draftRun metadataState_draftRun horder id 1
  cases found with
  | none => cases hstate
  | some draft =>
      obtain ⟨hchildren, -, -, hwalk⟩ := hall draft rfl
      exact ⟨order, fuel, draft, horder, hfound fuel le_rfl, hchildren, hwalk⟩

/-- The picker has an item for the main branch and one for the draft. -/
theorem listsBranches_draftRun : ∃ order fuel, ∃ items : List (PickerItem ℕ),
    populate id draftMetadata order (fun _ => true) 2 fuel = .done items ∧
      ListsBranches id draftMetadata (items.map PickerItem.metadata) := by
  obtain ⟨order, horder⟩ := draftMetadata.branches.exists_iterates
  have hcheckedOut : 2 ∈ draftMetadata.branches := by decide
  obtain ⟨items, ⟨fuel, hitems⟩, hlists⟩ :=
    listsBranches_of_reachable reachable_draftRun metadataState_draftRun horder id (fun _ => true)
      hcheckedOut
  exact ⟨order, fuel, items, hitems fuel le_rfl, hlists⟩

end Backstitch
