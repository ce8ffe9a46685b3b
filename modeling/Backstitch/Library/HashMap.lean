/-
# Hash maps and their iteration orders

A hash map is a finite map: two maps are equal when they answer every lookup
alike.  Iterating over one yields its entries in an order that the value does
not determine, so code that iterates is given the order as an argument, and a
statement about it speaks of every order of the same map.
-/

import Mathlib.Data.Finmap
import Mathlib.Data.Set.Finite.Basic

namespace Backstitch

universe u v

/-- A finite map from `κ` to `ν`, as a value. -/
abbrev HashMap (κ : Type u) (ν : Type v) := Finmap fun _ : κ => ν

/-- One entry of a hash map. -/
abbrev Entry (κ : Type u) (ν : Type v) := Sigma fun _ : κ => ν

namespace HashMap

variable {κ : Type u} {ν : Type v}

/-- `order` is one of the orders in which an iterator may yield the entries. -/
def Iterates (map : HashMap κ ν) (order : List (Entry κ ν)) : Prop :=
  (order : Multiset (Entry κ ν)) = map.entries

theorem exists_iterates (map : HashMap κ ν) : ∃ order, map.Iterates order :=
  Quotient.exists_rep map.entries

/-- A map has finitely many values. -/
theorem finite_values [DecidableEq κ] (map : HashMap κ ν) :
    {value | ∃ key, map.lookup key = some value}.Finite := by
  have hanswers : ((fun key => map.lookup key) '' (map.keys : Set κ)).Finite :=
    map.keys.finite_toSet.image _
  refine (hanswers.preimage (Option.some_injective ν).injOn).subset ?_
  rintro value ⟨key, hkey⟩
  exact ⟨key, Finmap.mem_keys.mpr (Finmap.mem_of_lookup_eq_some hkey), hkey⟩

/-- Any entries under distinct keys are the iteration order of some map. -/
theorem iterates_of_nodup {order : List (Entry κ ν)} (hkeys : (order.map Sigma.fst).Nodup) :
    ∃ map : HashMap κ ν, map.Iterates order :=
  ⟨⟨order, Multiset.coe_nodupKeys.mpr (List.nodupKeys_iff_pairwise.mpr
    (List.pairwise_map.mp hkeys))⟩, rfl⟩

namespace Iterates

variable {map : HashMap κ ν} {order : List (Entry κ ν)}

theorem perm {first second : List (Entry κ ν)} (hfirst : map.Iterates first)
    (hsecond : map.Iterates second) : first.Perm second :=
  Multiset.coe_eq_coe.mp (hfirst.trans hsecond.symm)

theorem of_perm {first second : List (Entry κ ν)} (hfirst : map.Iterates first)
    (hperm : second.Perm first) : map.Iterates second :=
  (Multiset.coe_eq_coe.mpr hperm).trans hfirst

/-- No key is yielded twice. -/
theorem nodupKeys (horder : map.Iterates order) : order.NodupKeys :=
  Multiset.coe_nodupKeys.mp (by rw [horder]; exact map.nodupKeys)

theorem keys_nodup (horder : map.Iterates order) : (order.map Sigma.fst).Nodup :=
  List.nodupKeys_iff_pairwise.mp horder.nodupKeys |> List.pairwise_map.mpr

variable [DecidableEq κ]

/-- The entries yielded are those that a lookup finds. -/
theorem mem_iff (horder : map.Iterates order) {key : κ} {value : ν} :
    ⟨key, value⟩ ∈ order ↔ map.lookup key = some value := by
  rw [Finmap.lookup_eq_some_iff, ← horder, Multiset.mem_coe]

theorem mem_keys_iff (horder : map.Iterates order) {key : κ} :
    key ∈ order.map Sigma.fst ↔ key ∈ map := by
  simp only [List.mem_map, Finmap.mem_iff]
  constructor
  · rintro ⟨⟨found, value⟩, hmem, rfl⟩
    exact ⟨value, horder.mem_iff.mp hmem⟩
  · rintro ⟨value, hlookup⟩
    exact ⟨⟨key, value⟩, horder.mem_iff.mpr hlookup, rfl⟩

end Iterates

/-- The entries whose keys pass a test. -/
def retain (keep : κ → Bool) (map : HashMap κ ν) : HashMap κ ν where
  entries := map.entries.filter fun entry => keep entry.1
  nodupKeys := by
    obtain ⟨order, horder⟩ := map.exists_iterates
    have hkeys : order.NodupKeys := Multiset.coe_nodupKeys.mp (by rw [horder]; exact map.nodupKeys)
    rw [← horder, Multiset.filter_coe, Multiset.coe_nodupKeys]
    exact hkeys.sublist List.filter_sublist

@[simp]
theorem lookup_retain_eq_some [DecidableEq κ] {keep : κ → Bool} {map : HashMap κ ν} {key : κ}
    {value : ν} :
    (map.retain keep).lookup key = some value ↔ map.lookup key = some value ∧ keep key = true := by
  rw [Finmap.lookup_eq_some_iff, Finmap.lookup_eq_some_iff]
  exact Multiset.mem_filter

/-- Collect entries into a map; a later entry replaces an earlier one with the
same key. -/
def collect [DecidableEq κ] (entries : List (Entry κ ν)) : HashMap κ ν :=
  entries.foldl (fun map entry => map.insert entry.1 entry.2) ∅

section Collect

variable [DecidableEq κ]

theorem lookup_foldl_insert {entries : List (Entry κ ν)} (map : HashMap κ ν)
    (hkeys : (entries.map Sigma.fst).Nodup) {key : κ} {value : ν} :
    (entries.foldl (fun map entry => map.insert entry.1 entry.2) map).lookup key =
        some value ↔
      ⟨key, value⟩ ∈ entries ∨ key ∉ entries.map Sigma.fst ∧ map.lookup key = some value := by
  induction entries generalizing map with
  | nil => simp
  | cons entry entries ih =>
      obtain ⟨found, stored⟩ := entry
      obtain ⟨hfresh, hkeys⟩ := List.nodup_cons.mp hkeys
      rw [List.foldl_cons, ih _ hkeys]
      by_cases heq : key = found
      · subst heq
        have habsent : ∀ value, (⟨key, value⟩ : Entry κ ν) ∉ entries := fun value hmem =>
          hfresh (List.mem_map.mpr ⟨_, hmem, rfl⟩)
        have hfresh : key ∉ entries.map Sigma.fst := hfresh
        simp [habsent, hfresh, Finmap.lookup_insert, eq_comm]
      · simp [heq, Finmap.lookup_insert_of_ne]

theorem mem_of_lookup_foldl_insert {entries : List (Entry κ ν)} {map : HashMap κ ν} {key : κ}
    {value : ν}
    (hlookup : (entries.foldl (fun map entry => map.insert entry.1 entry.2) map).lookup key =
      some value) : ⟨key, value⟩ ∈ entries ∨ map.lookup key = some value := by
  induction entries generalizing map with
  | nil => exact .inr hlookup
  | cons entry entries ih =>
      rcases ih hlookup with hmem | hinsert
      · exact .inl (List.mem_cons_of_mem _ hmem)
      · by_cases heq : key = entry.1
        · subst heq
          rw [Finmap.lookup_insert] at hinsert
          cases hinsert
          exact .inl List.mem_cons_self
        · rw [Finmap.lookup_insert_of_ne _ heq] at hinsert
          exact .inr hinsert

theorem mem_foldl_insert {entries : List (Entry κ ν)} {map : HashMap κ ν} {key : κ} :
    key ∈ entries.foldl (fun map entry => map.insert entry.1 entry.2) map ↔
      key ∈ entries.map Sigma.fst ∨ key ∈ map := by
  induction entries generalizing map with
  | nil => simp
  | cons entry entries ih =>
      rw [List.foldl_cons, ih, Finmap.mem_insert, List.map_cons, List.mem_cons, ← or_assoc]
      exact or_congr_left or_comm

/-- Collecting loses no key. -/
theorem mem_collect {entries : List (Entry κ ν)} {key : κ} :
    key ∈ collect entries ↔ key ∈ entries.map Sigma.fst := by
  rw [collect, mem_foldl_insert, or_iff_left Finmap.notMem_empty]

/-- Collecting makes nothing up. -/
theorem mem_of_lookup_collect {entries : List (Entry κ ν)} {key : κ} {value : ν}
    (hlookup : (collect entries).lookup key = some value) : ⟨key, value⟩ ∈ entries := by
  rcases mem_of_lookup_foldl_insert hlookup with hmem | hempty
  · exact hmem
  · simp at hempty

/-- Under distinct keys, collecting loses nothing. -/
theorem lookup_collect {entries : List (Entry κ ν)} (hkeys : (entries.map Sigma.fst).Nodup)
    {key : κ} {value : ν} :
    (collect entries).lookup key = some value ↔ ⟨key, value⟩ ∈ entries := by
  simp [collect, lookup_foldl_insert ∅ hkeys]

/-- Entries whose keys are replaced keep their values, unless two keys fall together. -/
theorem lookup_collect_map {α : Type*} {order : List (α × ν)} {keyOf : α → κ}
    (hnodup : (order.map Prod.fst).Nodup)
    (hkeyOf : ∀ first ∈ order, ∀ second ∈ order,
      keyOf first.1 = keyOf second.1 → first.1 = second.1) {key : κ} {value : ν} :
    (collect (order.map fun entry => ⟨keyOf entry.1, entry.2⟩)).lookup key = some value ↔
      ∃ item, (item, value) ∈ order ∧ keyOf item = key := by
  have hkeys : ((order.map fun entry =>
      (⟨keyOf entry.1, entry.2⟩ : Entry κ ν)).map Sigma.fst).Nodup := by
    rw [List.map_map]
    refine List.Nodup.map_on ?_ hnodup.of_map
    intro first hfirst second hsecond hkey
    exact List.inj_on_of_nodup_map hnodup hfirst hsecond (hkeyOf first hfirst second hsecond hkey)
  rw [lookup_collect hkeys, List.mem_map]
  constructor
  · rintro ⟨⟨item, found⟩, hentry, heq⟩
    obtain ⟨hkey, hvalue⟩ := Sigma.mk.inj_iff.mp heq
    obtain rfl := eq_of_heq hvalue
    exact ⟨item, hentry, hkey⟩
  · rintro ⟨item, hentry, rfl⟩
    exact ⟨_, hentry, rfl⟩

theorem iterates_collect {entries : List (Entry κ ν)}
    (hkeys : (entries.map Sigma.fst).Nodup) : (collect entries).Iterates entries := by
  obtain ⟨map, hmap⟩ := iterates_of_nodup hkeys
  have heq : collect entries = map := Finmap.ext_lookup fun key => by
    ext value
    exact (lookup_collect hkeys).trans hmap.mem_iff
  rwa [heq]

/-- A map that keeps one entry for each key can be collected from them in some order. -/
theorem exists_perm_collect_eq {entries : List (Entry κ ν)} {map : HashMap κ ν}
    (hmem : ∀ key value, map.lookup key = some value → ⟨key, value⟩ ∈ entries)
    (hkeys : ∀ entry ∈ entries, entry.1 ∈ map) :
    ∃ order : List (Entry κ ν), order.Perm entries ∧ collect order = map := by
  obtain ⟨kept, hkept⟩ := map.exists_iterates
  have hle : (kept : Multiset (Entry κ ν)) ≤ entries := by
    refine (Multiset.le_iff_subset ?_).mpr fun entry hentry => ?_
    · exact Multiset.coe_nodup.mpr (List.Nodup.of_map Sigma.fst hkept.keys_nodup)
    · exact hmem entry.1 entry.2 (hkept.mem_iff.mp (Multiset.mem_coe.mp hentry))
  obtain ⟨others, hothers⟩ := Multiset.le_iff_exists_add.mp hle
  obtain ⟨earlier, rfl⟩ := Quotient.exists_rep others
  refine ⟨earlier ++ kept, ?_, Finmap.ext_lookup fun key => Option.ext fun value => ?_⟩
  · exact List.perm_append_comm.trans (Multiset.coe_eq_coe.mp hothers).symm
  · rw [collect, List.foldl_append, ← collect, lookup_foldl_insert _ hkept.keys_nodup,
      hkept.mem_iff, or_iff_left_iff_imp]
    rintro ⟨habsent, hearlier⟩
    have hentry : (⟨key, value⟩ : Entry κ ν) ∈ entries := by
      refine (Multiset.coe_eq_coe.mp hothers).mem_iff.mpr (List.mem_append_right kept ?_)
      exact mem_of_lookup_collect hearlier
    exact absurd (hkept.mem_keys_iff.mpr (hkeys _ hentry)) habsent

/-- A fold of which every step sets what is under one key, each key once. -/
theorem lookup_foldl_of_local {β : Type*} {step : HashMap κ ν → β → HashMap κ ν} {keyOf : β → κ}
    {value : β → Option ν}
    (hself : ∀ map item, (step map item).lookup (keyOf item) = value item)
    (hother : ∀ map item key, key ≠ keyOf item → (step map item).lookup key = map.lookup key)
    {items : List β} (hnodup : (items.map keyOf).Nodup) (start : HashMap κ ν) :
    (∀ item ∈ items, (items.foldl step start).lookup (keyOf item) = value item) ∧
      ∀ key ∉ items.map keyOf, (items.foldl step start).lookup key = start.lookup key := by
  induction items generalizing start with
  | nil => exact ⟨fun _ hitem => (nomatch hitem), fun _ _ => rfl⟩
  | cons first items ih =>
      obtain ⟨hfresh, hnodup⟩ := List.nodup_cons.mp hnodup
      obtain ⟨hset, hkept⟩ := ih hnodup (step start first)
      refine ⟨List.forall_mem_cons.mpr ⟨?_, hset⟩, fun key hkey => ?_⟩
      · rw [List.foldl_cons, hkept (keyOf first) hfresh, hself]
      · obtain ⟨hne, hrest⟩ := not_or.mp (mt List.mem_cons.mpr hkey)
        rw [List.foldl_cons, hkept key hrest, hother start first key hne]

/-- Where some steps decide one key and the others leave it alone, the last of those that decide
it counts. -/
theorem lookup_foldl_of_last {β : Type*} {step : HashMap κ ν → β → HashMap κ ν} {hits : β → Bool}
    {value : β → Option ν} {key : κ}
    (hhit : ∀ map item, hits item = true → (step map item).lookup key = value item)
    (hmiss : ∀ map item, hits item = false → (step map item).lookup key = map.lookup key)
    (items : List β) (start : HashMap κ ν) :
    (items.foldl step start).lookup key =
      ((items.filter hits).getLast?.map value).getD (start.lookup key) := by
  induction items using List.reverseRecOn with
  | nil => rfl
  | append_singleton items item ih =>
      rw [List.foldl_append, List.foldl_cons, List.foldl_nil, List.filter_append]
      cases hitem : hits item with
      | false =>
          rw [hmiss _ item hitem, ih, List.filter_cons_of_neg (by simp [hitem]), List.filter_nil,
            List.append_nil]
      | true =>
          rw [hhit _ item hitem, List.filter_cons_of_pos hitem, List.filter_nil,
            List.getLast?_concat, Option.map_some, Option.getD_some]

/-- Of the entries under one key, the last one is collected. -/
theorem lookup_collect_last (entries : List (Entry κ ν)) (key : κ) :
    (collect entries).lookup key =
      (entries.filter fun entry => entry.1 = key).getLast?.map Sigma.snd := by
  have hhit : ∀ (map : HashMap κ ν) (entry : Entry κ ν), decide (entry.1 = key) = true →
      (map.insert entry.1 entry.2).lookup key = some entry.2 := by
    intro map entry hentry
    rw [← of_decide_eq_true hentry]
    exact Finmap.lookup_insert _
  have hmiss : ∀ (map : HashMap κ ν) (entry : Entry κ ν), decide (entry.1 = key) = false →
      (map.insert entry.1 entry.2).lookup key = map.lookup key :=
    fun map entry hentry => Finmap.lookup_insert_of_ne _ (Ne.symm (of_decide_eq_false hentry))
  rw [collect, lookup_foldl_of_last hhit hmiss, Finmap.lookup_empty]
  cases (entries.filter fun entry => decide (entry.1 = key)).getLast? with
  | none => rfl
  | some entry => rfl

end Collect

end HashMap

namespace HashSet

variable {κ : Type u} {keys : Finset κ} {order : List κ}

/-- `order` is one of the orders in which an iterator may yield the keys of a hash set. -/
def Iterates (keys : Finset κ) (order : List κ) : Prop := (order : Multiset κ) = keys.val

theorem Iterates.nodup (horder : Iterates keys order) : order.Nodup :=
  Multiset.coe_nodup.mp (by rw [horder]; exact keys.nodup)

theorem Iterates.mem_iff (horder : Iterates keys order) {key : κ} : key ∈ order ↔ key ∈ keys := by
  rw [← Finset.mem_val, ← horder, Multiset.mem_coe]

end HashSet

end Backstitch
