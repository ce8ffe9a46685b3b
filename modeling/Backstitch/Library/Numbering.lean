/-
# Entries that are numbered by their positions

A format that stores a map as a list has no use for the numbers by which the map remembers the
order: whoever reads the list numbers the entries anew.  The entries come back under their keys,
in the same order.
-/

import Backstitch.Library.HashMap
import Backstitch.Library.Run
import Backstitch.Library.StableSort

namespace Backstitch

universe u v w

namespace HashMap

variable {κ : Type u} {ν : Type v} {τ : Type w} [DecidableEq κ]

theorem eq_empty_iff {map : HashMap κ ν} : map = ∅ ↔ ∀ key, key ∉ map := by
  constructor
  · rintro rfl key
    exact Finmap.notMem_empty
  · intro hall
    apply Finmap.ext_lookup
    intro key
    rw [Finmap.lookup_eq_none.mpr (hall key), Finmap.lookup_empty]

/-- A map is that of the entries that it is iterated over. -/
theorem Iterates.collect_eq {map : HashMap κ ν} {entries : List (Entry κ ν)}
    (horder : map.Iterates entries) : collect entries = map :=
  Finmap.ext ((iterates_collect horder.keys_nodup).symm.trans horder)

/-- The map of these entries, each with its position put in. -/
def numbered (put : κ → ν → ℕ → τ) (entries : List (Entry κ ν)) : HashMap κ τ :=
  collect (entries.zipIdx.map fun entry => ⟨entry.1.1, put entry.1.1 entry.1.2 entry.2⟩)

variable {put : κ → ν → ℕ → τ} {map : HashMap κ ν} {entries : List (Entry κ ν)} {key : κ}

omit [DecidableEq κ] in
theorem map_fst_zipIdx (put : κ → ν → ℕ → τ) (entries : List (Entry κ ν)) (start : ℕ) :
    (((entries.zipIdx start).map fun entry =>
      (⟨entry.1.1, put entry.1.1 entry.1.2 entry.2⟩ : Entry κ τ)).map Sigma.fst) =
        entries.map Sigma.fst := by
  have hfst := List.zipIdx_map_fst start entries
  calc _ = ((entries.zipIdx start).map Prod.fst).map Sigma.fst := by
        rw [List.map_map, List.map_map]
        rfl
    _ = entries.map Sigma.fst := by rw [hfst]

theorem iterates_numbered (horder : map.Iterates entries) : (numbered put entries).Iterates
    (entries.zipIdx.map fun entry => ⟨entry.1.1, put entry.1.1 entry.1.2 entry.2⟩) := by
  refine iterates_collect ?_
  rw [map_fst_zipIdx]
  exact horder.keys_nodup

/-- A key has its value with the position of its entry. -/
theorem lookup_numbered (horder : map.Iterates entries) {value : τ} :
    (numbered put entries).lookup key = some value ↔ ∃ position stored,
      entries[position]? = some ⟨key, stored⟩ ∧ put key stored position = value := by
  rw [← (iterates_numbered horder).mem_iff, List.mem_map]
  constructor
  · rintro ⟨⟨⟨found, stored⟩, position⟩, hmem, heq⟩
    cases heq
    exact ⟨position, stored, List.mem_zipIdx_iff_getElem?.mp hmem, rfl⟩
  · rintro ⟨position, stored, hstored, rfl⟩
    exact ⟨(⟨key, stored⟩, position), List.mem_zipIdx_iff_getElem?.mpr hstored, rfl⟩

/-- Numbering loses no key, and adds none. -/
theorem mem_numbered (horder : map.Iterates entries) : key ∈ numbered put entries ↔ key ∈ map := by
  rw [numbered, mem_collect, map_fst_zipIdx, horder.mem_keys_iff]

theorem numbered_eq_empty_iff (horder : map.Iterates entries) :
    numbered put entries = ∅ ↔ map = ∅ := by
  rw [eq_empty_iff, eq_empty_iff]
  simp only [mem_numbered horder]

/-- **Sorting by the numbers gives the entries in their old order.** -/
theorem sortByKey_numbered {τ' : Type*} [LinearOrder τ'] {order : List (Entry κ τ)}
    {number : Entry κ τ → τ'} {numberOf : ℕ → τ'} (hstrict : StrictMono numberOf)
    (hnumber : ∀ key stored position, number ⟨key, put key stored position⟩ = numberOf position)
    (horder : map.Iterates entries) (hnumbered : (numbered put entries).Iterates order) :
    sortByKey number order =
      entries.zipIdx.map fun entry => ⟨entry.1.1, put entry.1.1 entry.1.2 entry.2⟩ := by
  have hperm := (sortByKey_perm number order).trans (hnumbered.perm (iterates_numbered horder))
  have hstrictly : (entries.zipIdx.map fun entry =>
      (⟨entry.1.1, put entry.1.1 entry.1.2 entry.2⟩ : Entry κ τ)).Pairwise
        fun first second => number first < number second := by
    rw [List.pairwise_map]
    have hpositions : (entries.zipIdx.map Prod.snd).Pairwise (· < ·) := by
      rw [List.zipIdx_map_snd]
      exact List.pairwise_lt_range'
    refine (List.pairwise_map.mp hpositions).imp fun {first second} hless => ?_
    rw [hnumber, hnumber]
    exact hstrict hless
  have hnumbers := List.pairwise_map.mpr (hstrictly.imp fun hless => hless.ne)
  refine hperm.eq_of_pairwise ?_ (sortByKey_pairwise number order)
    (hstrictly.imp fun hless => hless.le)
  intro first second hfirst hsecond hle hge
  exact List.inj_on_of_nodup_map hnumbers (hperm.mem_iff.mp hfirst) hsecond (le_antisymm hle hge)

/-- What does not show the numbers shows the entries in their old order. -/
theorem map_sortByKey_numbered {γ : Type*} {order : List (Entry κ τ)} {number : Entry κ τ → ℤ}
    {shown : Entry κ τ → γ} {shownOf : Entry κ ν → γ}
    (hnumber : ∀ key stored (position : ℕ), number ⟨key, put key stored position⟩ = position)
    (hshown : ∀ key stored position, map.lookup key = some stored →
      (numbered put entries).lookup key = some (put key stored position) →
        shown ⟨key, put key stored position⟩ = shownOf ⟨key, stored⟩)
    (horder : map.Iterates entries) (hnumbered : (numbered put entries).Iterates order) :
    (sortByKey number order).map shown = entries.map shownOf := by
  have hfst := List.zipIdx_map_fst 0 entries
  rw [sortByKey_numbered (fun _ _ hless => Int.ofNat_lt.mpr hless) hnumber horder hnumbered,
    List.map_map]
  conv_rhs => rw [← hfst, List.map_map]
  refine List.map_congr_left fun entry hentry => hshown _ _ _ ?_ ?_
  · exact horder.mem_iff.mp (hfst ▸ List.mem_map_of_mem hentry)
  · exact (lookup_numbered horder).mpr
      ⟨_, _, List.mem_zipIdx_iff_getElem?.mp hentry, rfl⟩

/-- A loop that puts the entries into a map, and counts them, numbers them. -/
theorem foldlM_numbered {β σ : Type} {step : σ → β → Run σ} {item : Entry κ ν → β}
    {state : HashMap κ τ → ℕ → σ} (hstep : ∀ map position, ∀ entry ∈ entries,
      step (state map position) (item entry) =
        .done (state (map.insert entry.1 (put entry.1 entry.2 position)) (position + 1))) :
    (entries.map item).foldlM step (state ∅ 0) =
      .done (state (numbered put entries) entries.length) := by
  suffices hgeneral : ∀ rest map position, rest ⊆ entries →
      (rest.map item).foldlM step (state map position) = .done (state
        (((rest.zipIdx position).map fun entry =>
            (⟨entry.1.1, put entry.1.1 entry.1.2 entry.2⟩ : Entry κ τ)).foldl
          (fun map entry => map.insert entry.1 entry.2) map) (position + rest.length)) by
    have hall := hgeneral entries ∅ 0 (List.Subset.refl entries)
    rwa [Nat.zero_add] at hall
  intro rest
  induction rest with
  | nil => exact fun map position _ => rfl
  | cons entry rest ih =>
      intro map position hsubset
      rw [List.map_cons, List.foldlM_cons, hstep map position entry (hsubset List.mem_cons_self),
        Run.done_bind, ih _ _ fun other hother => hsubset (List.mem_cons_of_mem _ hother),
        List.zipIdx_cons, List.map_cons, List.foldl_cons, List.length_cons, Nat.add_right_comm,
        Nat.add_assoc]

/-! ## Numbers that are all different -/

/-- No two entries have one number, and the numbers are below the bound. -/
structure NumberedBelow (number : ν → ℤ) (bound : ℤ) (map : HashMap κ ν) : Prop where
  lt : ∀ key value, map.lookup key = some value → number value < bound
  inj : ∀ first second one two, map.lookup first = some one → map.lookup second = some two →
    number one = number two → first = second

section NumberedBelow

variable {number : ν → ℤ} {bound : ℤ}

theorem numberedBelow_empty (number : ν → ℤ) (bound : ℤ) :
    NumberedBelow number bound (∅ : HashMap κ ν) := by
  constructor <;> simp

/-- An entry with the next number may be put in, in place of an old one or not. -/
theorem NumberedBelow.insert {value : ν} (hmap : NumberedBelow number bound map)
    (hnumber : number value = bound) : NumberedBelow number (bound + 1) (map.insert key value) := by
  have hself : ∀ other stored, (map.insert key value).lookup other = some stored →
      other = key ∧ stored = value ∨ other ≠ key ∧ map.lookup other = some stored := by
    intro other stored hstored
    by_cases heq : other = key
    · subst heq
      rw [Finmap.lookup_insert] at hstored
      exact .inl ⟨rfl, (Option.some.inj hstored).symm⟩
    · rw [Finmap.lookup_insert_of_ne _ heq] at hstored
      exact .inr ⟨heq, hstored⟩
  constructor
  · intro other stored hstored
    rcases hself other stored hstored with ⟨-, rfl⟩ | ⟨-, hold⟩
    · omega
    · have hless := hmap.lt other stored hold
      omega
  · intro first second one two hone htwo hsame
    rcases hself first one hone with ⟨rfl, rfl⟩ | ⟨-, holdOne⟩
    · rcases hself second two htwo with ⟨rfl, -⟩ | ⟨-, holdTwo⟩
      · rfl
      · have hless := hmap.lt second two holdTwo
        omega
    · rcases hself second two htwo with ⟨rfl, rfl⟩ | ⟨-, holdTwo⟩
      · have hless := hmap.lt first one holdOne
        omega
      · exact hmap.inj first second one two holdOne holdTwo hsame

/-- Entries that are collected with their positions have numbers that are all different, even
where one key stands twice. -/
theorem numberedBelow_collect {α : Type*} {items : List α} {keyOf : α → κ} {valueOf : α → ℕ → ν}
    (hnumber : ∀ item position, number (valueOf item position) = (position : ℕ)) :
    NumberedBelow number items.length (collect (items.zipIdx.map fun item =>
      (⟨keyOf item.1, valueOf item.1 item.2⟩ : Entry κ ν))) := by
  suffices hgeneral : ∀ (map : HashMap κ ν) (start : ℕ), NumberedBelow number start map →
      NumberedBelow number (start + items.length : ℕ)
        (((items.zipIdx start).map fun item =>
          (⟨keyOf item.1, valueOf item.1 item.2⟩ : Entry κ ν)).foldl
            (fun map entry => map.insert entry.1 entry.2) map) by
    have hall := hgeneral ∅ 0 (numberedBelow_empty number _)
    rwa [Nat.zero_add] at hall
  induction items with
  | nil => exact fun map start hmap => hmap
  | cons item items ih =>
      intro map start hmap
      rw [List.zipIdx_cons, List.map_cons, List.foldl_cons, List.length_cons,
        show start + (items.length + 1) = start + 1 + items.length by omega]
      exact ih _ _ (hmap.insert (hnumber item start))

end NumberedBelow

end HashMap

end Backstitch
