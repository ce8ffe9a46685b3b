/-
# Renaming until fresh, in any order

Items are visited one at a time.  A visit renames its item, again and again, as
long as one of the items it reads carries the same name.  What an item ends up
with can depend on which of those were visited before it.

`SettlesAs` is a condition on the names before the first visit, and
`forall_visits_iff_settlesAs` proves it exact: every order of visits ends with
these names precisely when it holds.
-/

import Backstitch.Library.Run
import Mathlib.Data.List.Nodup
import Mathlib.Data.Set.Card
import Mathlib.Data.Set.Lattice
import Mathlib.Logic.Function.Basic
import Mathlib.Order.Interval.Finset.Nat

namespace Backstitch

universe u v w

namespace Renaming

variable {ι : Type u} {ν : Type v} (next : ν → Run ν)

/-! ## One item -/

/-- Renaming `name` until it is not taken ends with `result`. -/
inductive Fresh (taken : Set ν) : ν → ν → Prop
  | free {name : ν} (hfree : name ∉ taken) : Fresh taken name name
  | taken {name other result : ν} (htaken : name ∈ taken) (hnext : next name = .done other)
      (hrest : Fresh taken other result) : Fresh taken name result

namespace Fresh

variable {next} {taken : Set ν} {name result : ν}

theorem not_mem (hfresh : Fresh next taken name result) : result ∉ taken := by
  induction hfresh with
  | free hfree => exact hfree
  | taken _ _ _ ih => exact ih

/-- A name that nobody has is kept. -/
theorem eq_of_not_mem (hfresh : Fresh next taken name result) (hfree : name ∉ taken) :
    result = name := by
  cases hfresh with
  | free => rfl
  | taken htaken => exact absurd htaken hfree

/-- A name that somebody has is given up for good. -/
theorem ne_of_mem (hfresh : Fresh next taken name result) (htaken : name ∈ taken) :
    result ≠ name := by
  rintro rfl
  exact hfresh.not_mem htaken

/-- Taking more names changes nothing as long as the result is still free. -/
theorem mono {more : Set ν} (hfresh : Fresh next taken name result) (hsubset : taken ⊆ more)
    (hresult : result ∉ more) : Fresh next more name result := by
  induction hfresh with
  | free => exact .free hresult
  | taken htaken hnext _ ih => exact .taken (hsubset htaken) hnext (ih hresult)

/-- If many sets of taken names lead to one result, the names passed over are in
all of them. -/
theorem iInter {κ : Type w} {takenBy : κ → Set ν} [Nonempty κ]
    (hfresh : ∀ choice, Fresh next (takenBy choice) name result) :
    Fresh next (⋂ choice, takenBy choice) name result := by
  have choice : κ := Classical.arbitrary κ
  have hchoice := hfresh choice
  induction hchoice with
  | free hfree => exact .free fun hmem => hfree (Set.mem_iInter.mp hmem choice)
  | @taken name other result htaken hnext hrest ih =>
      have hne : result ≠ name := fun heq => hrest.not_mem (heq ▸ htaken)
      have hall : ∀ choice, name ∈ takenBy choice ∧
          Fresh next (takenBy choice) other result := by
        intro choice
        cases hfresh choice with
        | free => exact absurd rfl hne
        | taken hmem hnext' hrest' =>
            cases hnext.symm.trans hnext'
            exact ⟨hmem, hrest'⟩
      exact .taken (Set.mem_iInter.mpr fun choice => (hall choice).1) hnext
        (ih fun choice => (hall choice).2)

/-- A sequence of names ends with the first that is free. -/
theorem exists_of_sequence {sequence : ℕ → ν} {count : ℕ}
    (hnext : ∀ step < count, next (sequence step) = .done (sequence (step + 1)))
    (hfree : sequence count ∉ taken) : ∃ result, Fresh next taken (sequence 0) result := by
  induction count generalizing sequence with
  | zero => exact ⟨sequence 0, .free hfree⟩
  | succ count ih =>
      by_cases hzero : sequence 0 ∈ taken
      · obtain ⟨result, hrest⟩ : ∃ result, Fresh next taken (sequence 1) result := by
          apply @ih fun step => sequence (step + 1)
          · intro step hstep
            exact hnext (step + 1) (Nat.succ_lt_succ hstep)
          · exact hfree
        exact ⟨result, .taken hzero (hnext 0 (Nat.succ_pos count)) hrest⟩
      · exact ⟨sequence 0, .free hzero⟩

/-- Of more distinct names than are taken, one is free. -/
theorem exists_of_injOn {sequence : ℕ → ν} {count : ℕ} (hfinite : taken.Finite)
    (hcount : taken.ncard ≤ count)
    (hnext : ∀ step < count, next (sequence step) = .done (sequence (step + 1)))
    (hinjOn : Set.InjOn sequence (Set.Iic count)) :
    ∃ result, Fresh next taken (sequence 0) result := by
  obtain ⟨step, hstep, hfree⟩ : ∃ step ≤ count, sequence step ∉ taken := by
    by_contra hall
    push Not at hall
    have hsubset : Set.image sequence (Set.Iic count) ⊆ taken := Set.image_subset_iff.mpr hall
    have hcard : (Set.image sequence (Set.Iic count)).ncard = count + 1 := by
      rw [hinjOn.ncard_image, ← Finset.coe_Iic, Set.ncard_coe_finset, Nat.card_Iic]
    have hle := Set.ncard_le_ncard hsubset hfinite
    omega
  exact exists_of_sequence (fun earlier hearlier => hnext earlier (by omega)) hfree

end Fresh

/-! ## All items, one after the other -/

variable (reads : ι → Set ι) [DecidableEq ι]

/-- Visiting a list of items, from the names before to the names after. -/
inductive Visits : (ι → ν) → List ι → (ι → ν) → Prop
  | nil (names : ι → ν) : Visits names [] names
  | cons {names final : ι → ν} {item : ι} {items : List ι} {name : ν}
      (hfresh : Fresh next (Set.image names (reads item)) (names item) name)
      (hrest : Visits (Function.update names item name) items final) :
      Visits names (item :: items) final

namespace Visits

variable {next reads} {names final : ι → ν} {items : List ι}

theorem nil_iff : Visits next reads names [] final ↔ final = names := by
  constructor
  · rintro ⟨⟩
    rfl
  · rintro rfl
    exact .nil _

theorem cons_iff {item : ι} : Visits next reads names (item :: items) final ↔
    ∃ name, Fresh next (Set.image names (reads item)) (names item) name ∧
      Visits next reads (Function.update names item name) items final := by
  constructor
  · rintro (_ | ⟨hfresh, hrest⟩)
    exact ⟨_, hfresh, hrest⟩
  · rintro ⟨name, hfresh, hrest⟩
    exact .cons hfresh hrest

/-- Only the items visited are renamed. -/
theorem eq_of_not_mem (hvisits : Visits next reads names items final) {item : ι}
    (hitem : item ∉ items) : final item = names item := by
  induction hvisits with
  | nil => rfl
  | cons _ _ ih =>
      rw [ih fun hmem => hitem (List.mem_cons_of_mem _ hmem)]
      exact Function.update_of_ne (fun heq => hitem (by simp [heq])) _ _

theorem exists_of_append {before after : List ι}
    (hvisits : Visits next reads names (before ++ after) final) :
    ∃ middle, Visits next reads names before middle ∧
      Visits next reads middle after final := by
  induction before generalizing names with
  | nil => exact ⟨names, .nil names, hvisits⟩
  | cons item before ih =>
      cases hvisits with
      | cons hfresh hrest =>
          obtain ⟨middle, hbefore, hafter⟩ := ih hrest
          exact ⟨middle, .cons hfresh hbefore, hafter⟩

end Visits

/-- Visits go through when every item can be renamed, whatever the others are
called by then. -/
theorem exists_visits {next : ν → Run ν} {reads : ι → Set ι} {start : ι → ν} {items : List ι}
    (hitems : items.Nodup)
    (hfresh : ∀ item ∈ items, ∀ names : ι → ν, ∃ name,
      Fresh next (Set.image names (reads item)) (start item) name) :
    ∃ final, Visits next reads start items final := by
  suffices hgeneral : ∀ names, (∀ item ∈ items, names item = start item) →
      ∃ final, Visits next reads names items final from hgeneral start fun _ _ => rfl
  intro names hnames
  induction items generalizing names with
  | nil => exact ⟨names, .nil names⟩
  | cons item items ih =>
      obtain ⟨hlater, hitems⟩ := List.nodup_cons.mp hitems
      obtain ⟨name, hname⟩ := hfresh item (by simp) names
      rw [← hnames item (by simp)] at hname
      obtain ⟨final, hrest⟩ : ∃ final,
          Visits next reads (Function.update names item name) items final := by
        apply ih hitems
        · exact fun other hother => hfresh other (List.mem_cons_of_mem _ hother)
        · intro other hother
          have hne : other ≠ item := fun heq => hlater (heq ▸ hother)
          rw [Function.update_of_ne hne]
          exact hnames other (List.mem_cons_of_mem _ hother)
      exact ⟨final, .cons hname hrest⟩

namespace Visits

variable {next : ν → Run ν} {reads : ι → Set ι} {names final : ι → ν} {items : List ι}
  {item other : ι}

/-- An item takes a name that nothing it reads carries and keeps. -/
theorem ne_of_kept (hvisits : Visits next reads names items final) (hitems : items.Nodup)
    (hitem : item ∈ items) (hother : other ∉ items) (hreads : other ∈ reads item) :
    final item ≠ names other := by
  induction hvisits with
  | nil => nomatch hitem
  | @cons names final first items name hfresh hrest ih =>
      obtain ⟨hlater, hitems⟩ := List.nodup_cons.mp hitems
      obtain ⟨hne, hother⟩ := not_or.mp (mt List.mem_cons.mpr hother)
      rcases List.mem_cons.mp hitem with rfl | hitem
      · rw [hrest.eq_of_not_mem hlater, Function.update_self]
        exact fun hname => hfresh.not_mem ⟨other, hreads, hname.symm⟩
      · have hkept := ih hitems hitem hother
        rwa [Function.update_of_ne hne] at hkept

/-- Of two items that read each other, the one visited later avoids the name of
the other. -/
theorem ne_of_mutual (hvisits : Visits next reads names items final) (hitems : items.Nodup)
    (hitem : item ∈ items) (hother : other ∈ items) (hne : item ≠ other)
    (hreads : other ∈ reads item) (hmutual : item ∈ reads other) : final item ≠ final other := by
  induction hvisits with
  | nil => nomatch hitem
  | @cons names final first items name hfresh hrest ih =>
      obtain ⟨hlater, honce⟩ := List.nodup_cons.mp hitems
      rcases List.mem_cons.mp hitem with rfl | hmem
      · have hother := (List.mem_cons.mp hother).resolve_left hne.symm
        rw [hrest.eq_of_not_mem hlater]
        exact (hrest.ne_of_kept honce hother hlater hmutual).symm
      · rcases List.mem_cons.mp hother with rfl | hother
        · rw [hrest.eq_of_not_mem hlater]
          exact hrest.ne_of_kept honce hmem hlater hreads
        · exact ih honce hmem hother

/-- An item whose name nobody carries keeps it, when all that it reads avoid it. -/
theorem eq_of_mutual (hvisits : Visits next reads names items final)
    (hfree : names item ∉ Set.image names (reads item))
    (hmutual : ∀ other ∈ reads item, item ∈ reads other) : final item = names item := by
  induction hvisits with
  | nil => rfl
  | @cons names final first items name hfresh hrest ih =>
      have hkept : Function.update names first name item = names item := by
        by_cases heq : item = first
        · subst heq
          rw [Function.update_self, hfresh.eq_of_not_mem hfree]
        · exact Function.update_of_ne heq _ _
      rw [← hkept]
      apply ih
      rw [hkept]
      intro ⟨other, hother, hname⟩
      by_cases heq : other = first
      · subst heq
        rw [Function.update_self] at hname
        exact hfresh.not_mem ⟨item, hmutual other hother, hname.symm⟩
      · rw [Function.update_of_ne heq] at hname
        exact hfree ⟨other, hother, hname⟩

end Visits

/-- Visits that leave every name as it is are those that meet no collision. -/
theorem visits_self_iff {next : ν → Run ν} {reads : ι → Set ι} {start : ι → ν}
    {items : List ι} (hitems : items.Nodup) :
    Visits next reads start items start ↔
      ∀ item ∈ items, start item ∉ Set.image start (reads item) := by
  induction items with
  | nil => simp [Visits.nil_iff]
  | cons item items ih =>
      obtain ⟨hlater, hitems⟩ := List.nodup_cons.mp hitems
      rw [Visits.cons_iff]
      constructor
      · intro ⟨name, hfresh, hrest⟩
        have hname : name = start item := by
          rw [hrest.eq_of_not_mem hlater, Function.update_self]
        rw [hname, Function.update_eq_self] at hrest
        intro other hother
        rcases List.mem_cons.mp hother with rfl | hother
        · exact hname ▸ hfresh.not_mem
        · exact (ih hitems).mp hrest other hother
      · intro hfree
        refine ⟨start item, .free (hfree item (by simp)), ?_⟩
        rw [Function.update_eq_self]
        exact (ih hitems).mpr fun other hother => hfree other (List.mem_cons_of_mem _ hother)

/-! ## Every order -/

/-- The names when only these items have been visited. -/
def current (start final : ι → ν) (visited : List ι) (item : ι) : ν :=
  if item ∈ visited then final item else start item

@[simp]
theorem current_nil (start final : ι → ν) : current start final [] = start := by
  funext item
  simp [current]

variable (start : ι → ν)

/-- The item reads another one with its own name. -/
def Collides (item : ι) : Prop := start item ∈ Set.image start (reads item)

/-- Every item ends up with this name: the first one that no unrenamed item it
reads carries.  Nothing it reads carries that name, visited or not. -/
def SettlesAs (fresh : ι → ν) : Prop :=
  ∀ item,
    Fresh next (Set.image start {other ∈ reads item | ¬ Collides reads start other})
      (start item) (fresh item) ∧
    ∀ other ∈ reads item, start other ≠ fresh item ∧ fresh other ≠ fresh item

/-- Every item has a name to end up with. -/
def Settled : Prop := ∃ fresh, SettlesAs next reads start fresh

variable {next reads start} {items : List ι}

/-- If every order ends with the same names, every item gets its final name
whatever part of the others was visited before it. -/
theorem fresh_current {final : ι → ν} (hitems : items.Nodup)
    (hfinal : ∀ order : List ι, order.Perm items → Visits next reads start order final)
    {visited : List ι} (hnodup : visited.Nodup) (hsubset : visited ⊆ items) {item : ι}
    (hitem : item ∈ items) (hfirst : item ∉ visited) :
    Fresh next (Set.image (current start final visited) (reads item)) (start item)
      (final item) := by
  let rest := items.filter fun other => other ∉ visited ∧ other ≠ item
  have horder : (visited ++ item :: rest).Nodup := by
    refine hnodup.append (List.nodup_cons.mpr ⟨by simp [rest], hitems.filter _⟩) ?_
    intro other hvisited hrest
    rcases List.mem_cons.mp hrest with rfl | hrest
    · exact hfirst hvisited
    · simp [rest, hvisited] at hrest
  have hperm : (visited ++ item :: rest).Perm items := by
    refine (List.perm_ext_iff_of_nodup horder hitems).mpr fun other => ?_
    simp only [List.mem_append, List.mem_cons, rest, List.mem_filter, decide_eq_true_eq]
    constructor
    · rintro (hvisited | rfl | ⟨hmem, -⟩)
      · exact hsubset hvisited
      · exact hitem
      · exact hmem
    · intro hmem
      by_cases hvisited : other ∈ visited
      · exact .inl hvisited
      · by_cases heq : other = item
        · exact .inr (.inl heq)
        · exact .inr (.inr ⟨hmem, hvisited, heq⟩)
  obtain ⟨middle, hbefore, hafter⟩ := (hfinal _ hperm).exists_of_append
  have hmiddle : middle = current start final visited := by
    funext other
    unfold current
    split
    · rename_i hvisited
      have hlater : other ∉ item :: rest := fun hmem =>
        (List.nodup_append.mp horder).2.2 other hvisited other hmem rfl
      exact (hafter.eq_of_not_mem hlater).symm
    · rename_i hvisited
      exact hbefore.eq_of_not_mem hvisited
  have hstart : middle item = start item := by simp [hmiddle, current, hfirst]
  cases hafter with
  | cons hfresh hrest =>
      have hname := hrest.eq_of_not_mem (List.nodup_cons.mp (List.nodup_append.mp horder).2.1).1
      rw [Function.update_self] at hname
      rw [hstart, hmiddle] at hfresh
      rw [hname]
      exact hfresh

/-- A name that every order passes over is carried by an item that no order
renames: otherwise some order visits all its carriers first. -/
theorem settlesAs_of_forall_visits {final : ι → ν} (hitems : items.Nodup)
    (hreads : ∀ item, ∀ other ∈ reads item, item ∈ items ∧ other ∈ items ∧ other ≠ item)
    (hfinal : ∀ order : List ι, order.Perm items → Visits next reads start order final) :
    SettlesAs next reads start final := by
  classical
  have hfirst : ∀ item,
      Fresh next (Set.image start (reads item)) (start item) (final item) := by
    intro item
    by_cases hitem : item ∈ items
    swap
    · rw [(hfinal items (List.Perm.refl items)).eq_of_not_mem hitem]
      exact .free fun ⟨other, hother, _⟩ => hitem (hreads item other hother).1
    have hfresh := fresh_current hitems hfinal .nil (List.nil_subset _) hitem (by simp)
    rwa [current_nil] at hfresh
  refine fun item => ⟨?_, fun other hother => ⟨?_, ?_⟩⟩
  · by_cases hitem : item ∈ items
    swap
    · refine (hfirst item).eq_of_not_mem ?_ ▸ .free ?_
      · exact fun ⟨other, hother, _⟩ => hitem (hreads item other hother).1
      · exact fun ⟨other, hother, _⟩ => hitem (hreads item other hother.1).1
    let Choice := {visited : List ι // visited.Nodup ∧ visited ⊆ items ∧ item ∉ visited}
    have : Nonempty Choice := ⟨[], .nil, List.nil_subset _, by simp⟩
    have hall : Fresh next (⋂ visited : Choice,
        Set.image (current start final visited.1) (reads item)) (start item) (final item) :=
      Fresh.iInter fun visited =>
        fresh_current hitems hfinal visited.2.1 visited.2.2.1 hitem visited.2.2.2
    refine hall.mono (fun name hname => ?_) ?_
    · let carriers := items.filter fun other =>
        other ≠ item ∧ start other = name ∧ final other ≠ name
      obtain ⟨other, hother, hcurrent⟩ := Set.mem_iInter.mp hname
        ⟨carriers, hitems.filter _, List.filter_subset_self _, by simp [carriers]⟩
      obtain ⟨-, hmem, hne⟩ := hreads item other hother
      have hkept : start other = name ∧ final other = name := by
        unfold current at hcurrent
        split at hcurrent
        · rename_i hvisited
          simp [carriers, hcurrent] at hvisited
        · rename_i hvisited
          refine ⟨hcurrent, ?_⟩
          simpa [carriers, hmem, hne, hcurrent] using hvisited
      refine ⟨other, ⟨hother, fun hcollides => ?_⟩, hkept.1⟩
      exact (hfirst other).ne_of_mem hcollides (hkept.2.trans hkept.1.symm)
    · rintro ⟨other, ⟨hother, -⟩, hname⟩
      exact (hfirst item).not_mem ⟨other, hother, hname⟩
  · intro hname
    exact (hfirst item).not_mem ⟨other, hother, hname⟩
  · intro hname
    obtain ⟨hitem, hmem, hne⟩ := hreads item other hother
    have hfresh : Fresh next (Set.image (current start final [other]) (reads item))
        (start item) (final item) :=
      fresh_current hitems hfinal (List.nodup_singleton other) (by simpa using hmem) hitem
        (by simpa using Ne.symm hne)
    exact hfresh.not_mem ⟨other, hother, by simp [current, hname]⟩

/-- With settled names, one visit gives its item the fresh name, whoever was
visited before. -/
theorem fresh_of_settlesAs {fresh : ι → ν} (hfresh : SettlesAs next reads start fresh) (item : ι)
    (visited : List ι) : Fresh next (Set.image (current start fresh visited) (reads item)) (start item)
      (fresh item) := by
  refine (hfresh item).1.mono ?_ ?_
  · rintro _ ⟨other, ⟨hother, hfree⟩, rfl⟩
    have hkept : fresh other = start other := by
      refine (hfresh other).1.eq_of_not_mem ?_
      rintro ⟨third, hthird, hname⟩
      exact hfree ⟨third, hthird.1, hname⟩
    exact ⟨other, hother, by simp [current, hkept]⟩
  · rintro ⟨other, hother, hname⟩
    unfold current at hname
    split at hname
    · exact ((hfresh item).2 other hother).2 hname
    · exact ((hfresh item).2 other hother).1 hname

/-- Visits that give every item its fresh name, from any point of the run on. -/
theorem visits_current {fresh : ι → ν}
    (hvisit : ∀ item visited,
      Fresh next (Set.image (current start fresh visited) (reads item)) (start item)
        (fresh item))
    (remaining visited : List ι) (hnodup : remaining.Nodup)
    (hlater : ∀ item ∈ remaining, item ∉ visited) :
    Visits next reads (current start fresh visited) remaining
      (current start fresh (remaining ++ visited)) := by
  induction remaining generalizing visited with
  | nil => exact .nil _
  | cons item remaining ih =>
      obtain ⟨honce, hnodup⟩ := List.nodup_cons.mp hnodup
      have hstart : current start fresh visited item = start item := by
        simp [current, hlater item (by simp)]
      have hupdate : Function.update (current start fresh visited) item (fresh item) =
          current start fresh (item :: visited) := by
        funext other
        by_cases heq : other = item
        · simp [heq, current]
        · simp [heq, current]
      have hlist : current start fresh (item :: remaining ++ visited) =
          current start fresh (remaining ++ item :: visited) := by
        funext other
        simp only [current, List.cons_append, List.mem_cons, List.mem_append]
        congr 1
        ac_rfl
      have hfresh := hvisit item visited
      rw [← hstart] at hfresh
      refine .cons hfresh ?_
      rw [hupdate, hlist]
      refine ih (item :: visited) hnodup fun other hother => ?_
      simp only [List.mem_cons, not_or]
      exact ⟨fun heq => honce (heq ▸ hother), hlater other (List.mem_cons_of_mem _ hother)⟩

/-- **Every order of visits ends with these names exactly when the names settle as
these.** -/
theorem forall_visits_iff_settlesAs {final : ι → ν} (hitems : items.Nodup)
    (hreads : ∀ item, ∀ other ∈ reads item, item ∈ items ∧ other ∈ items ∧ other ≠ item) :
    (∀ order : List ι, order.Perm items → Visits next reads start order final) ↔
      SettlesAs next reads start final := by
  constructor
  · exact settlesAs_of_forall_visits hitems hreads
  · intro hfresh order hperm
    have hall := visits_current (fresh_of_settlesAs hfresh) order []
      (hperm.nodup_iff.mpr hitems) (by simp)
    have hfinal : current start final (order ++ []) = final := by
      funext item
      by_cases hitem : item ∈ items
      · simp [current, hperm.mem_iff, hitem]
      · have hkept : final item = start item := by
          refine (hfresh item).1.eq_of_not_mem ?_
          exact fun ⟨other, hother, _⟩ => hitem (hreads item other hother.1).1
        simp [current, hkept]
    rwa [hfinal, current_nil] at hall

omit [DecidableEq ι] in
/-- Names without a collision are settled. -/
theorem settled_of_forall_not_collides (hfree : ∀ item, ¬ Collides reads start item) :
    Settled next reads start := by
  refine ⟨start, fun item => ⟨.free ?_, fun other hother => ?_⟩⟩
  · rintro ⟨other, hother, hname⟩
    exact hfree item ⟨other, hother.1, hname⟩
  · have hne : start other ≠ start item := fun hname => hfree item ⟨other, hother, hname⟩
    exact ⟨hne, hne⟩

omit [DecidableEq ι] in
/-- Where reading is mutual, nothing but the absence of collisions will do: of two
items with one name, the first to be visited gives it up. -/
theorem settled_iff_forall_not_collides
    (hmutual : ∀ item, ∀ other ∈ reads item, item ∈ reads other) :
    Settled next reads start ↔ ∀ item, ¬ Collides reads start item := by
  refine ⟨?_, settled_of_forall_not_collides⟩
  rintro ⟨fresh, hfresh⟩ item ⟨other, hother, hname⟩
  have hkept : fresh item = start item := by
    refine (hfresh item).1.eq_of_not_mem ?_
    rintro ⟨third, ⟨hthird, hfree⟩, hsame⟩
    exact hfree ⟨item, hmutual item third hthird, hsame.symm⟩
  exact ((hfresh item).2 other hother).1 (hname.trans hkept.symm)

end Renaming

end Backstitch
