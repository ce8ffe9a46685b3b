/-
# Trees from the top

The nodes of some trees, every node before the trees below it, as a walk over lists of
children comes to them.  In such a list the children of a node stand in their own order,
whatever stands between them, and where every node has one parent at most, no node is
listed twice.
-/

import Mathlib.Data.List.Basic
import Mathlib.Logic.Relation
import Mathlib.Tactic.Common

namespace Backstitch

universe u

variable {ι : Type u}

/-- The nodes of the trees below some roots, from the top. -/
inductive TopDown (children : ι → List ι) : List ι → List ι → Prop
  | nil : TopDown children [] []
  | cons {root : ι} {roots below after : List ι} (hbelow : TopDown children (children root) below)
      (hafter : TopDown children roots after) :
      TopDown children (root :: roots) (root :: below ++ after)

namespace TopDown

variable {children : ι → List ι} {roots listed : List ι}

/-- One tree after the other. -/
theorem append {others more : List ι} (hlisted : TopDown children roots listed)
    (hmore : TopDown children others more) :
    TopDown children (roots ++ others) (listed ++ more) := by
  induction hlisted with
  | nil => exact hmore
  | @cons root roots below after hbelow _ _ ih =>
      rw [List.append_assoc, List.cons_append]
      exact .cons hbelow ih

/-- The trees of several roots, each listed on its own. -/
theorem flatten {lists : List (List ι)}
    (heach : List.Forall₂ (fun root below => TopDown children [root] below) roots lists) :
    TopDown children roots lists.flatten := by
  induction heach with
  | nil => exact .nil
  | cons hfirst _ ih => exact hfirst.append ih

/-- Only the children of the nodes listed matter. -/
theorem congr {other : ι → List ι} (hlisted : TopDown children roots listed)
    (hsame : ∀ above ∈ listed, children above = other above) : TopDown other roots listed := by
  induction hlisted with
  | nil => exact .nil
  | @cons root roots below after _ _ ihBelow ihAfter =>
      have hroot : children root = other root := hsame root (by simp)
      have hbelow := ihBelow fun above habove => hsame above (by simp [habove])
      rw [hroot] at hbelow
      exact .cons hbelow (ihAfter fun above habove => hsame above (by simp [habove]))

/-- The trees of the roots that are kept, where nothing is listed for the others. -/
theorem filter_flatten {β : Type*} {rootOf : β → ι} {keep : ι → Bool} {listing : β → List ι}
    {items : List β}
    (hkept : ∀ item ∈ items, keep (rootOf item) = true →
      TopDown children [rootOf item] (listing item))
    (hleft : ∀ item ∈ items, keep (rootOf item) = false → listing item = []) :
    TopDown children ((items.map rootOf).filter keep) (items.map listing).flatten := by
  induction items with
  | nil => exact .nil
  | cons item items ih =>
      obtain ⟨hfirst, hkept⟩ := List.forall_mem_cons.mp hkept
      obtain ⟨hnone, hleft⟩ := List.forall_mem_cons.mp hleft
      rw [List.map_cons, List.map_cons, List.filter_cons, List.flatten_cons]
      cases hkeep : keep (rootOf item) with
      | true => exact (hfirst hkeep).append (ih hkept hleft)
      | false =>
          rw [hnone hkeep]
          exact ih hkept hleft

/-- The nodes listed are the nodes that children lead to from a root. -/
theorem mem_iff (hlisted : TopDown children roots listed) {node : ι} :
    node ∈ listed ↔
      ∃ root ∈ roots,
        Relation.ReflTransGen (fun above child => child ∈ children above) root node := by
  induction hlisted with
  | nil => simp
  | @cons root roots below after _ _ ihBelow ihAfter =>
      rw [List.mem_append, List.mem_cons, ihBelow, ihAfter]
      constructor
      · rintro ((rfl | ⟨child, hchild, hwalk⟩) | ⟨other, hother, hwalk⟩)
        · exact ⟨node, List.mem_cons_self, .refl⟩
        · exact ⟨root, List.mem_cons_self, .head hchild hwalk⟩
        · exact ⟨other, List.mem_cons_of_mem root hother, hwalk⟩
      · rintro ⟨other, hother, hwalk⟩
        rcases List.mem_cons.mp hother with rfl | hother
        · rcases Relation.ReflTransGen.cases_head hwalk with rfl | ⟨child, hchild, hrest⟩
          · exact .inl (.inl rfl)
          · exact .inl (.inr ⟨child, hchild, hrest⟩)
        · exact .inr ⟨other, hother, hwalk⟩

/-- **Where no node has two parents and none is below itself, no node is listed twice.** -/
theorem nodup (hparent : ∀ first second child, child ∈ children first →
      child ∈ children second → first = second)
    (hchildren : ∀ above, (children above).Nodup)
    (hacyclic : ∀ node, ¬ Relation.TransGen (fun above child => child ∈ children above) node node)
    (hlisted : TopDown children roots listed) (hroots : roots.Nodup)
    (houter : ∀ first ∈ roots, ∀ second ∈ roots,
      ¬ Relation.TransGen (fun above child => child ∈ children above) first second) :
    listed.Nodup := by
  induction hlisted with
  | nil => exact List.nodup_nil
  | @cons root roots below after hbelow hafter ihBelow ihAfter =>
      obtain ⟨hfresh, hrest⟩ := List.nodup_cons.mp hroots
      have hbelowNodup : below.Nodup := by
        apply ihBelow (hchildren root)
        intro first hfirst second hsecond hwalk
        obtain ⟨last, hlast, hstep⟩ := Relation.TransGen.tail'_iff.mp hwalk
        cases hparent last root second hstep hsecond
        exact hacyclic root (Relation.TransGen.head' hfirst hlast)
      have hafterNodup : after.Nodup := ihAfter hrest fun first hfirst second hsecond =>
        houter first (List.mem_cons_of_mem root hfirst) second (List.mem_cons_of_mem root hsecond)
      -- A walk from the root and a walk from another root do not meet: one root would be
      -- below the other.
      have hapart : ∀ other ∈ roots, ∀ node,
          Relation.ReflTransGen (fun above child => child ∈ children above) root node →
          ¬ Relation.ReflTransGen (fun above child => child ∈ children above) other node := by
        intro other hother node hforth hback
        have hunique : Relator.RightUnique
            (Function.swap fun above child => child ∈ children above) :=
          fun child first second hfirst hsecond => hparent first second child hfirst hsecond
        have hne : root ≠ other := fun heq => hfresh (heq ▸ hother)
        rcases Relation.ReflTransGen.total_of_right_unique hunique
          (Relation.reflTransGen_swap.mpr hforth) (Relation.reflTransGen_swap.mpr hback)
          with hwalk | hwalk
        · rcases Relation.reflTransGen_iff_eq_or_transGen.mp (Relation.reflTransGen_swap.mp hwalk)
            with heq | hwalk
          · exact hne heq
          · exact houter other (List.mem_cons_of_mem root hother) root List.mem_cons_self hwalk
        · rcases Relation.reflTransGen_iff_eq_or_transGen.mp (Relation.reflTransGen_swap.mp hwalk)
            with heq | hwalk
          · exact hne heq.symm
          · exact houter root List.mem_cons_self other (List.mem_cons_of_mem root hother) hwalk
      apply List.nodup_append.mpr
      refine ⟨List.nodup_cons.mpr ⟨?_, hbelowNodup⟩, hafterNodup, ?_⟩
      · intro hroot
        obtain ⟨child, hchild, hwalk⟩ := hbelow.mem_iff.mp hroot
        exact hacyclic root (Relation.TransGen.head' hchild hwalk)
      · rintro node hnode _ hlater rfl
        obtain ⟨other, hother, hback⟩ := hafter.mem_iff.mp hlater
        rcases List.mem_cons.mp hnode with rfl | hnode
        · exact hapart other hother node .refl hback
        · obtain ⟨child, hchild, hforth⟩ := hbelow.mem_iff.mp hnode
          exact hapart other hother node (.head hchild hforth) hback

variable {parent : ι → Option ι}

/-- **The nodes with one parent, in the order in which that lists its children.** -/
theorem filter_eq [DecidableEq ι] (hparent : ∀ above child, child ∈ children above →
      parent child = some above)
    (hlisted : TopDown children roots listed) (hnodup : listed.Nodup)
    (houter : ∀ root ∈ roots, ∀ above ∈ listed, parent root ≠ some above) (above : ι) :
    listed.filter (fun node => decide (parent node = some above)) =
      if above ∈ listed then children above
      else roots.filter (fun node => decide (parent node = some above)) := by
  induction hlisted with
  | nil => rfl
  | @cons root roots below after hbelow hafter ihBelow ihAfter =>
      obtain ⟨hroot, hrest⟩ := List.nodup_cons.mp hnodup
      obtain ⟨hbelowNodup, hafterNodup, hdisjoint⟩ := List.nodup_append.mp hrest
      obtain ⟨hnotBelow, hnotAfter⟩ := not_or.mp (mt List.mem_append.mpr hroot)
      have hchildren : ∀ child ∈ children root, ∀ above ∈ below, parent child ≠ some above := by
        rintro child hchild above habove hsome
        rw [hparent root child hchild] at hsome
        exact hnotBelow (Option.some.inj hsome ▸ habove)
      have hroots : ∀ other ∈ roots, ∀ above ∈ after, parent other ≠ some above :=
        fun other hother above habove =>
          houter other (List.mem_cons_of_mem root hother) above (by simp [habove])
      have hself : (children root).filter (fun node => decide (parent node = some root)) =
          children root :=
        List.filter_eq_self.mpr fun child hchild => decide_eq_true (hparent root child hchild)
      have hother : above ≠ root →
          (children root).filter (fun node => decide (parent node = some above)) = [] := by
        intro hne
        rw [List.filter_eq_nil_iff]
        intro child hchild
        rw [hparent root child hchild]
        simpa using Ne.symm hne
      rw [List.cons_append, List.filter_cons, List.filter_append, ihBelow hbelowNodup hchildren,
        ihAfter hafterNodup hroots]
      by_cases habove : above ∈ root :: (below ++ after)
      · -- No root has a parent among the nodes that are listed.
        have hnone : ∀ other ∈ root :: roots, decide (parent other = some above) = false :=
          fun other hother => decide_eq_false (houter other hother above habove)
        have hroots : roots.filter (fun node => decide (parent node = some above)) = [] :=
          List.filter_eq_nil_iff.mpr fun other hmem =>
            Bool.not_eq_true _ ▸ hnone other (List.mem_cons_of_mem root hmem)
        rw [if_pos habove, hnone root List.mem_cons_self, hroots]
        rcases List.mem_cons.mp habove with rfl | habove
        · rw [if_neg hnotBelow, if_neg hnotAfter, hself]
          simp
        · have hne : above ≠ root := fun heq => hroot (heq ▸ habove)
          rw [hother hne]
          rcases List.mem_append.mp habove with hin | hin
          · have hout : above ∉ after := fun hmem => hdisjoint above hin above hmem rfl
            simp [hin, hout]
          · have hout : above ∉ below := fun hmem => hdisjoint above hmem above hin rfl
            simp [hin, hout]
      · simp only [List.mem_cons, List.mem_append, not_or] at habove
        obtain ⟨hne, hbelowOut, hafterOut⟩ := habove
        rw [if_neg hbelowOut, if_neg hafterOut, hother hne, List.nil_append, List.filter_cons]
        simp [hne, hbelowOut, hafterOut]

end TopDown

end Backstitch
