/-
# The list of servers

The URLs of the available servers are stored as one text, joined with commas and read back by
splitting at commas.  A URL may have commas of its own.
-/

import Backstitch.Library.RustText
import Mathlib.Data.List.Nodup

namespace Backstitch

universe u

/-! ## Sets with an insertion order -/

/-- `indexmap::IndexSet`: its items in the order in which they were inserted. -/
structure IndexSet (ν : Type u) where
  items : List ν
  nodup : items.Nodup

namespace IndexSet

variable {ν : Type u}

theorem ext_items {first second : IndexSet ν} (hitems : first.items = second.items) :
    first = second := by
  cases first
  cases second
  cases hitems
  rfl

variable [DecidableEq ν]

/-- An item that is there already keeps its place. -/
def insert (set : IndexSet ν) (item : ν) : IndexSet ν :=
  if hmem : item ∈ set.items then set
  else
    { items := set.items ++ [item]
      nodup := List.nodup_append.mpr ⟨set.nodup, List.nodup_singleton item, by
        intro first hfirst second hsecond heq
        exact hmem (List.mem_singleton.mp hsecond ▸ heq ▸ hfirst)⟩ }

/-- `collect` into an index set. -/
def collect (items : List ν) : IndexSet ν :=
  items.foldl insert { items := [], nodup := List.nodup_nil }

theorem mem_insert {set : IndexSet ν} {item other : ν} :
    other ∈ (set.insert item).items ↔ other ∈ set.items ∨ other = item := by
  rw [insert]
  split_ifs with hmem
  · exact (or_iff_left_of_imp fun heq => heq ▸ hmem).symm
  · rw [List.mem_append, List.mem_singleton]

theorem mem_foldl_insert {items : List ν} {set : IndexSet ν} {item : ν} :
    item ∈ (items.foldl insert set).items ↔ item ∈ set.items ∨ item ∈ items := by
  induction items generalizing set with
  | nil => simp
  | cons first items ih => rw [List.foldl_cons, ih, mem_insert, List.mem_cons, or_assoc]

theorem mem_collect {items : List ν} {item : ν} : item ∈ (collect items).items ↔ item ∈ items := by
  rw [collect, mem_foldl_insert]
  simp

theorem items_foldl_insert {items : List ν} {set : IndexSet ν}
    (hnodup : (set.items ++ items).Nodup) :
    (items.foldl insert set).items = set.items ++ items := by
  induction items generalizing set with
  | nil => rw [List.foldl_nil, List.append_nil]
  | cons first items ih =>
      have hfresh : first ∉ set.items := fun hmem =>
        (List.nodup_append.mp hnodup).2.2 first hmem first List.mem_cons_self rfl
      have hinsert : (set.insert first).items = set.items ++ [first] := by
        rw [insert, dif_neg hfresh]
      rw [List.foldl_cons, ih, hinsert, List.append_assoc]
      · rfl
      · rwa [hinsert, List.append_assoc]

/-- Items without duplicates are collected in their order. -/
theorem collect_items (set : IndexSet ν) : collect set.items = set :=
  ext_items (items_foldl_insert set.nodup)

end IndexSet

/-! ## The stored text -/

/-- What the section of the configuration has under a key. -/
inductive TomlValue
  | string (text : String)
  | other
  deriving DecidableEq

/-- `get_string`. -/
def getString (value : Option TomlValue) : Option String :=
  match value with
  | some (.string text) => if text = "" then none else some text
  | _ => none

/-- "Remap legacy TCP to new HTTP". -/
def remapLegacy (text : String) : String :=
  if containsText text "alpha.backstitch.dev:8085" then "https://alpha.backstitch.dev/" else text

/-- URLs and their texts. -/
structure Urls (ν : Type u) where
  /-- `Url::parse`. -/
  parse : String → Option ν
  toText : ν → String
  parse_toText : ∀ url, parse (toText url) = some url
  toText_ne_empty : ∀ url, toText url ≠ ""
  /-- Reading a text without commas can bring commas into a host that is percent-encoded;
  what stands between these is not read as a URL with commas once more. -/
  parse_between : ∀ text url, ',' ∉ text.toList → parse text = some url →
    ',' ∈ (toText url).toList →
      ∀ part ∈ splitAtChar ',' (toText url), ∀ other, parse part = some other →
        ',' ∉ (toText other).toList

namespace Urls

variable {ν : Type u} [DecidableEq ν] (urls : Urls ν)

/-- `available_servers`, of what is stored. -/
def availableServers (value : Option TomlValue) : IndexSet ν :=
  match getString value with
  | none => .collect []
  | some servers => .collect (((splitAtChar ',' servers).map remapLegacy).filterMap urls.parse)

omit [DecidableEq ν] in
/-- `set_available_servers`: the value that is stored. -/
def setAvailableServers (servers : IndexSet ν) : TomlValue :=
  .string (",".intercalate (servers.items.map urls.toText))

/-- No URL has the host of the old server. -/
def WithoutLegacy (servers : IndexSet ν) : Prop :=
  ∀ url ∈ servers.items, containsText (urls.toText url) "alpha.backstitch.dev:8085" = false

/-! ## What is read back -/

/-- The parts of a joined text are those of its parts. -/
theorem splitAtChar_comma_intercalate {parts : List String} (hparts : parts ≠ []) :
    splitAtChar ',' (",".intercalate parts) = parts.flatMap (splitAtChar ',') := by
  induction parts with
  | nil => exact absurd rfl hparts
  | cons part parts ih =>
      cases parts with
      | nil => rw [String.intercalate_singleton, List.flatMap_singleton]
      | cons next parts =>
          have hcomma : "," = String.singleton ',' := by decide
          rw [String.intercalate_cons_cons, hcomma, splitAtChar_append, ← hcomma,
            ih (List.cons_ne_nil _ _)]
          rfl

theorem intercalate_ne_empty {part : String} {parts : List String} (hpart : part ≠ "") :
    ",".intercalate (part :: parts) ≠ "" := by
  cases parts with
  | nil => rwa [String.intercalate_singleton]
  | cons next parts =>
      rw [String.intercalate_cons_cons]
      simp

variable {urls}

/-- What stands between the commas is parsed as it is. -/
theorem availableServers_setAvailableServers {servers : IndexSet ν}
    (hlegacy : urls.WithoutLegacy servers) :
    urls.availableServers (some (urls.setAvailableServers servers)) =
      .collect ((servers.items.flatMap fun url => splitAtChar ',' (urls.toText url)).filterMap
        urls.parse) := by
  obtain ⟨items, hnodup⟩ := servers
  cases items with
  | nil => rfl
  | cons url items =>
      have hfilled : ",".intercalate ((url :: items).map urls.toText) ≠ "" :=
        intercalate_ne_empty (urls.toText_ne_empty url)
      have hplain : ((url :: items).flatMap fun url => splitAtChar ',' (urls.toText url)).map
          remapLegacy = (url :: items).flatMap fun url => splitAtChar ',' (urls.toText url) := by
        conv_rhs => rw [← List.map_id ((url :: items).flatMap _)]
        apply List.map_congr_left
        intro part hpart
        obtain ⟨source, hsource, hmem⟩ := List.mem_flatMap.mp hpart
        have hold : ¬ containsText part "alpha.backstitch.dev:8085" = true := by
          intro hcontains
          have hwhole := (containsText_iff.mp hcontains).trans (infix_of_mem_splitAtChar hmem)
          rw [← containsText_iff, hlegacy source hsource] at hwhole
          nomatch hwhole
        exact if_neg hold
      have hsplit : splitAtChar ',' (",".intercalate ((url :: items).map urls.toText)) =
          (url :: items).flatMap fun url => splitAtChar ',' (urls.toText url) := by
        rw [← List.flatMap_map]
        exact splitAtChar_comma_intercalate (List.cons_ne_nil _ _)
      rw [setAvailableServers, availableServers, getString, if_neg hfilled]
      dsimp only
      rw [hsplit, hplain]

/-- **Exactly when the list of servers survives saving**: no URL has a comma. -/
theorem availableServers_set_iff {servers : IndexSet ν} (hlegacy : urls.WithoutLegacy servers) :
    urls.availableServers (some (urls.setAvailableServers servers)) = servers ↔
      ∀ url ∈ servers.items, ',' ∉ (urls.toText url).toList := by
  rw [availableServers_setAvailableServers hlegacy]
  constructor
  · intro hsame url hurl hcomma
    -- A URL that is read back comes from a part without commas of another one.
    have hread : ∀ url ∈ servers.items, ∃ source ∈ servers.items,
        ∃ part ∈ splitAtChar ',' (urls.toText source), urls.parse part = some url := by
      intro url hurl
      rw [← hsame, IndexSet.mem_collect] at hurl
      obtain ⟨part, hpart, hparse⟩ := List.mem_filterMap.mp hurl
      obtain ⟨source, hsource, hmem⟩ := List.mem_flatMap.mp hpart
      exact ⟨source, hsource, part, hmem, hparse⟩
    obtain ⟨source, hsource, part, hpart, hparse⟩ := hread url hurl
    by_cases hplain : ',' ∈ (urls.toText source).toList
    · obtain ⟨first, -, between, hbetween, hfirst⟩ := hread source hsource
      exact urls.parse_between between source (not_mem_of_mem_splitAtChar hbetween) hfirst hplain
        part hpart url hparse hcomma
    · rw [splitAtChar_of_not_mem hplain, List.mem_singleton] at hpart
      rw [hpart, urls.parse_toText, Option.some_inj] at hparse
      rw [hparse] at hplain
      exact hplain hcomma
  · intro hfree
    have hparts : servers.items.flatMap (fun url => splitAtChar ',' (urls.toText url)) =
        servers.items.map urls.toText := by
      rw [← List.flatMap_singleton' (servers.items.map urls.toText), List.flatMap_map]
      exact List.flatMap_congr fun url hurl => splitAtChar_of_not_mem (hfree url hurl)
    have hparsed : (servers.items.map urls.toText).filterMap urls.parse = servers.items := by
      rw [List.filterMap_map]
      conv_rhs => rw [← List.filterMap_some (l := servers.items)]
      exact List.filterMap_congr fun url _ => urls.parse_toText url
    rw [hparts, hparsed, IndexSet.collect_items]

/-! ## A URL with a comma -/

/-- The URLs of the examples. -/
inductive KnownUrl
  | home
  | list
  | front
  deriving DecidableEq

/-- The URLs of the examples have these texts. -/
def known : Urls KnownUrl where
  parse text :=
    if text = "https://a.example/" then some .home
    else if text = "https://b.example/x,y" then some .list
    else if text = "https://b.example/x" then some .front
    else none
  toText
    | .home => "https://a.example/"
    | .list => "https://b.example/x,y"
    | .front => "https://b.example/x"
  parse_toText url := by cases url <;> decide
  toText_ne_empty url := by cases url <;> decide
  parse_between text url hfree hparse hcomma := by
    exfalso
    split_ifs at hparse with hhome hlist hfront
    · cases hparse
      exact absurd hcomma (by decide)
    · rw [hlist] at hfree
      exact hfree (by decide)
    · cases hparse
      exact absurd hcomma (by decide)

/-- Two URLs without commas survive. -/
theorem availableServers_set_known :
    known.availableServers (some (known.setAvailableServers
      { items := [.front, .home], nodup := by decide })) =
        { items := [.front, .home], nodup := by decide } := by
  refine (availableServers_set_iff fun url hurl => ?_).mpr (by decide)
  rcases List.mem_pair.mp hurl with rfl | rfl
  · decide
  · decide

/-- A URL with a comma does not survive. -/
theorem not_availableServers_set_comma :
    known.WithoutLegacy { items := [.list], nodup := by decide } ∧
      known.availableServers (some (known.setAvailableServers
        { items := [.list], nodup := by decide })) ≠
          { items := [.list], nodup := by decide } := by
  refine ⟨fun url hurl => ?_, fun hsame => ?_⟩
  · rw [List.mem_singleton.mp hurl]
    decide
  · have hitems := congrArg IndexSet.items hsame
    exact absurd hitems (by decide)

end Urls

end Backstitch
