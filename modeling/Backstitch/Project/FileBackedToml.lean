/-
# A table that is backed by a file

`FileBackedToml` keeps the table that it read last and the metadata that the file had then.
One call runs at a time, since a lock is held over all of it; other programs write and delete
the file between any two of its steps.  Every write gives the file new metadata.
-/

import Backstitch.Library.HashMap
import Backstitch.Library.System

namespace Backstitch

universe u

/-- A `toml::Value` at the top: a section, or anything else. -/
inductive TomlItem (ν : Type u)
  | table (entries : HashMap String ν)
  | other (value : ν)
  deriving DecidableEq

/-- `toml::Table`. -/
abbrev TomlTable (ν : Type u) := HashMap String (TomlItem ν)

/-- How tables are read and written. -/
structure TomlTexts (ν : Type u) where
  parse : String → Option (TomlTable ν)
  toStringPretty : TomlTable ν → Option String
  parse_toStringPretty : ∀ table contents, toStringPretty table = some contents →
    parse contents = some table
  parse_empty : parse "" = some ∅

variable {ν : Type u}

/-- The lookup of `get`. -/
def getValue (table : TomlTable ν) (sectionName key : String) : Option ν :=
  match table.lookup sectionName with
  | some (.table entries) => entries.lookup key
  | _ => none

/-- The entries of a section, none where there is no table. -/
def sectionEntries (table : TomlTable ν) (sectionName : String) : HashMap String ν :=
  match table.lookup sectionName with
  | some (.table entries) => entries
  | _ => ∅

/-- The edit of `set`; without a value the key is removed. -/
def editTable (table : TomlTable ν) (sectionName key : String) (value : Option ν) :
    TomlTable ν :=
  match value with
  | some value =>
      table.insert sectionName (.table ((sectionEntries table sectionName).insert key value))
  | none =>
      match table.lookup sectionName with
      | some (.table entries) => table.insert sectionName (.table (entries.erase key))
      | _ => table

/-- A file with its time of modification and size, taken as one number. -/
structure BackingFile where
  content : String
  metadata : ℕ
  deriving DecidableEq

/-- `FileBackedTomlInner`. -/
structure TomlInner (ν : Type u) where
  table : TomlTable ν
  metadata : Option ℕ

inductive TomlCall (ν : Type u)
  | get (sectionName key : String)
  | set (sectionName key : String) (value : Option ν)

/-- Where the call stands that has the lock. -/
inductive TomlPhase (ν : Type u)
  | idle
  | started (call : TomlCall ν)
  /-- The metadata differs; the file is to be read. -/
  | stale (call : TomlCall ν)
  /-- There is no file; an empty one is to be renamed to it. -/
  | creating (call : TomlCall ν)
  /-- The content is invalid; the stored table is to be renamed to the file. -/
  | rewriting (call : TomlCall ν) (contents : String)
  | rewritten (call : TomlCall ν)
  /-- The table is read; the metadata is to be read once more. -/
  | tableRead (call : TomlCall ν) (table : TomlTable ν)
  | loaded (call : TomlCall ν)
  /-- `set` has edited the stored table. -/
  | edited
  /-- The temporary file is written; it is to be renamed. -/
  | writing (contents : String)
  /-- The metadata is to be refreshed. -/
  | renamed

inductive CallResult (ν : Type u)
  | value (found : Option ν)
  | done
  | failed

structure TomlState (ν : Type u) where
  inner : TomlInner ν
  file : Option BackingFile
  phase : TomlPhase ν
  returned : Option (CallResult ν)
  /-- The metadata of the next write. -/
  clock : ℕ

inductive TomlEvent (ν : Type u)
  | call (call : TomlCall ν)
  /-- The call takes its next step. -/
  | proceed
  /-- The next step of the call fails. -/
  | fail
  /-- Another program writes the file. -/
  | write (content : String)
  /-- Another program deletes the file. -/
  | remove

namespace TomlState

/-- `metadata`. -/
def fileMetadata (state : TomlState ν) : Option ℕ := state.file.map (·.metadata)

/-- The file gets new content. -/
def replaceFile (state : TomlState ν) (content : String) : TomlState ν :=
  { state with
    file := some { content := content, metadata := state.clock }
    clock := state.clock + 1 }

/-- The call gives the lock back. -/
def returns (state : TomlState ν) (result : CallResult ν) : TomlState ν :=
  { state with phase := .idle, returned := some result }

variable (texts : TomlTexts ν)

/-- The next step of the call. -/
def proceed (state : TomlState ν) : Option (TomlState ν) :=
  match state.phase with
  | .idle => none
  | .started call =>
      some { state with
        phase := if state.fileMetadata = state.inner.metadata then .loaded call else .stale call }
  | .stale call =>
      match state.file with
      | none => some { state with phase := .creating call }
      | some file =>
          match texts.parse file.content with
          | some table => some { state with phase := .tableRead call table }
          | none =>
              match texts.toStringPretty state.inner.table with
              | some contents => some { state with phase := .rewriting call contents }
              | none => some (state.returns .failed)
  | .creating call => some { state.replaceFile "" with phase := .tableRead call ∅ }
  | .rewriting call contents => some { state.replaceFile contents with phase := .rewritten call }
  | .rewritten call =>
      some { state with
        inner := { state.inner with metadata := state.fileMetadata }
        phase := .tableRead call state.inner.table }
  | .tableRead call table =>
      some { state with
        inner := { table := table, metadata := state.fileMetadata }
        phase := .loaded call }
  | .loaded (.get sectionName key) =>
      some (state.returns (.value (getValue state.inner.table sectionName key)))
  | .loaded (.set sectionName key value) =>
      some { state with
        inner := { state.inner with table := editTable state.inner.table sectionName key value }
        phase := .edited }
  | .edited =>
      match texts.toStringPretty state.inner.table with
      | some contents => some { state with phase := .writing contents }
      | none => some (state.returns .failed)
  | .writing contents => some { state.replaceFile contents with phase := .renamed }
  | .renamed =>
      some ({ state with
        inner := { state.inner with metadata := state.fileMetadata } }.returns .done)

/-- What one event does. -/
def step (state : TomlState ν) : TomlEvent ν → Option (TomlState ν)
  | .call call =>
      match state.phase with
      | .idle => some { state with phase := .started call, returned := none }
      | _ => none
  | .proceed => state.proceed texts
  | .fail =>
      match state.phase with
      | .idle | .loaded _ => none
      | _ => some (state.returns .failed)
  | .write content => some (state.replaceFile content)
  | .remove => some { state with file := none }

/-- The metadata in use is older than that of the next write. -/
structure Fresh (state : TomlState ν) : Prop where
  cached : ∀ metadata, state.inner.metadata = some metadata → metadata < state.clock
  file : ∀ file, state.file = some file → file.metadata < state.clock

end TomlState

/-- The runs of a `FileBackedToml` that is new, with any file. -/
def tomlSystem (texts : TomlTexts ν) : System (TomlState ν) (TomlEvent ν) where
  start state :=
    state.inner = { table := ∅, metadata := none } ∧ state.phase = .idle ∧ state.Fresh
  step := TomlState.step texts

/-! ## The steps of a call -/

/-- What a step of a call does, case by case. -/
inductive Proceeds (texts : TomlTexts ν) (state : TomlState ν) : TomlState ν → Prop
  | unmoved (call : TomlCall ν) (hphase : state.phase = .started call)
      (hmetadata : state.fileMetadata = state.inner.metadata) :
      Proceeds texts state { state with phase := .loaded call }
  | moved (call : TomlCall ν) (hphase : state.phase = .started call)
      (hmetadata : state.fileMetadata ≠ state.inner.metadata) :
      Proceeds texts state { state with phase := .stale call }
  | missing (call : TomlCall ν) (hphase : state.phase = .stale call)
      (hfile : state.file = none) : Proceeds texts state { state with phase := .creating call }
  | read (call : TomlCall ν) (file : BackingFile) (table : TomlTable ν)
      (hphase : state.phase = .stale call) (hfile : state.file = some file)
      (hparse : texts.parse file.content = some table) :
      Proceeds texts state { state with phase := .tableRead call table }
  | invalid (call : TomlCall ν) (file : BackingFile) (contents : String)
      (hphase : state.phase = .stale call) (hfile : state.file = some file)
      (hparse : texts.parse file.content = none)
      (hcontents : texts.toStringPretty state.inner.table = some contents) :
      Proceeds texts state { state with phase := .rewriting call contents }
  | notSerialized (call : TomlCall ν) (file : BackingFile) (hphase : state.phase = .stale call)
      (hfile : state.file = some file) (hparse : texts.parse file.content = none)
      (hcontents : texts.toStringPretty state.inner.table = none) :
      Proceeds texts state (state.returns .failed)
  | create (call : TomlCall ν) (hphase : state.phase = .creating call) :
      Proceeds texts state { state.replaceFile "" with phase := .tableRead call ∅ }
  | rewrite (call : TomlCall ν) (contents : String)
      (hphase : state.phase = .rewriting call contents) :
      Proceeds texts state { state.replaceFile contents with phase := .rewritten call }
  | refresh (call : TomlCall ν) (hphase : state.phase = .rewritten call) :
      Proceeds texts state { state with
        inner := { state.inner with metadata := state.fileMetadata }
        phase := .tableRead call state.inner.table }
  | store (call : TomlCall ν) (table : TomlTable ν) (hphase : state.phase = .tableRead call table) :
      Proceeds texts state { state with
        inner := { table := table, metadata := state.fileMetadata }
        phase := .loaded call }
  | found (sectionName key : String) (hphase : state.phase = .loaded (.get sectionName key)) :
      Proceeds texts state
        (state.returns (.value (getValue state.inner.table sectionName key)))
  | edit (sectionName key : String) (value : Option ν)
      (hphase : state.phase = .loaded (.set sectionName key value)) :
      Proceeds texts state { state with
        inner := { state.inner with table := editTable state.inner.table sectionName key value }
        phase := .edited }
  | serialize (contents : String) (hphase : state.phase = .edited)
      (hcontents : texts.toStringPretty state.inner.table = some contents) :
      Proceeds texts state { state with phase := .writing contents }
  | editNotSerialized (hphase : state.phase = .edited)
      (hcontents : texts.toStringPretty state.inner.table = none) :
      Proceeds texts state (state.returns .failed)
  | rename (contents : String) (hphase : state.phase = .writing contents) :
      Proceeds texts state { state.replaceFile contents with phase := .renamed }
  | finish (hphase : state.phase = .renamed) :
      Proceeds texts state ({ state with
        inner := { state.inner with metadata := state.fileMetadata } }.returns .done)

theorem proceeds_of_proceed {texts : TomlTexts ν} {state next : TomlState ν}
    (hstep : state.proceed texts = some next) : Proceeds texts state next := by
  rw [TomlState.proceed] at hstep
  split at hstep
  · nomatch hstep
  · rename_i call hphase
    cases hstep
    split_ifs with hmetadata
    · exact .unmoved call hphase hmetadata
    · exact .moved call hphase hmetadata
  · rename_i call hphase
    split at hstep
    · cases hstep
      exact .missing call hphase ‹_›
    · rename_i file hfile
      split at hstep
      · rename_i table hparse
        cases hstep
        exact .read call file table hphase hfile hparse
      · rename_i hparse
        split at hstep
        · rename_i contents hcontents
          cases hstep
          exact .invalid call file contents hphase hfile hparse hcontents
        · cases hstep
          exact .notSerialized call file hphase hfile hparse ‹_›
  · cases hstep
    exact .create _ ‹_›
  · cases hstep
    exact .rewrite _ _ ‹_›
  · cases hstep
    exact .refresh _ ‹_›
  · cases hstep
    exact .store _ _ ‹_›
  · cases hstep
    exact .found _ _ ‹_›
  · cases hstep
    exact .edit _ _ _ ‹_›
  · rename_i hphase
    split at hstep
    · rename_i contents hcontents
      cases hstep
      exact .serialize contents hphase hcontents
    · cases hstep
      exact .editNotSerialized hphase ‹_›
  · cases hstep
    exact .rename _ ‹_›
  · cases hstep
    exact .finish ‹_›

/-! ## Fresh metadata -/

namespace TomlState.Fresh

variable {texts : TomlTexts ν} {state : TomlState ν}

theorem replaceFile (hfresh : state.Fresh)
    (content : String) : (state.replaceFile content).Fresh where
  cached metadata hmetadata := Nat.lt_succ_of_lt (hfresh.cached metadata hmetadata)
  file file hfile := by
    cases hfile
    exact Nat.lt_succ_self _

theorem fileMetadata_lt (hfresh : state.Fresh) {metadata : ℕ}
    (hmetadata : state.fileMetadata = some metadata) : metadata < state.clock := by
  obtain ⟨file, hfile, rfl⟩ := Option.map_eq_some_iff.mp hmetadata
  exact hfresh.file file hfile

/-- The steps of a call use fresh metadata for what they write. -/
theorem proceeds (hfresh : state.Fresh) {next : TomlState ν} (hstep : Proceeds texts state next) :
    next.Fresh := by
  cases hstep with
  | create call hphase =>
      have hclock := hfresh.replaceFile ""
      exact ⟨hclock.cached, hclock.file⟩
  | rewrite call contents hphase =>
      have hclock := hfresh.replaceFile contents
      exact ⟨hclock.cached, hclock.file⟩
  | rename contents hphase =>
      have hclock := hfresh.replaceFile contents
      exact ⟨hclock.cached, hclock.file⟩
  | refresh call hphase => exact ⟨fun _ => hfresh.fileMetadata_lt, hfresh.file⟩
  | store call table hphase => exact ⟨fun _ => hfresh.fileMetadata_lt, hfresh.file⟩
  | finish hphase => exact ⟨fun _ => hfresh.fileMetadata_lt, hfresh.file⟩
  | unmoved => exact ⟨hfresh.cached, hfresh.file⟩
  | moved => exact ⟨hfresh.cached, hfresh.file⟩
  | missing => exact ⟨hfresh.cached, hfresh.file⟩
  | read => exact ⟨hfresh.cached, hfresh.file⟩
  | invalid => exact ⟨hfresh.cached, hfresh.file⟩
  | notSerialized => exact ⟨hfresh.cached, hfresh.file⟩
  | found => exact ⟨hfresh.cached, hfresh.file⟩
  | edit => exact ⟨hfresh.cached, hfresh.file⟩
  | serialize => exact ⟨hfresh.cached, hfresh.file⟩
  | editNotSerialized => exact ⟨hfresh.cached, hfresh.file⟩

end TomlState.Fresh

/-! ## Lookups in an edited table -/

theorem getValue_eq (table : TomlTable ν) (sectionName key : String) :
    getValue table sectionName key = (sectionEntries table sectionName).lookup key := by
  unfold getValue sectionEntries
  split
  · rfl
  · rw [Finmap.lookup_empty]

/-- Only the section of the key is edited. -/
theorem lookup_editTable_of_ne (table : TomlTable ν) {sectionName other : String} (key : String)
    (value : Option ν) (hne : other ≠ sectionName) :
    (editTable table sectionName key value).lookup other = table.lookup other := by
  cases value with
  | some value => exact Finmap.lookup_insert_of_ne _ hne
  | none =>
      rw [editTable]
      split
      · exact Finmap.lookup_insert_of_ne _ hne
      · rfl

theorem sectionEntries_insert (table : TomlTable ν) (sectionName : String)
    (entries : HashMap String ν) :
    sectionEntries (table.insert sectionName (.table entries)) sectionName = entries := by
  rw [sectionEntries, Finmap.lookup_insert]

/-- The entries of an edited section. -/
theorem sectionEntries_editTable (table : TomlTable ν) (sectionName key : String)
    (value : Option ν) :
    sectionEntries (editTable table sectionName key value) sectionName =
      match value with
      | some value => (sectionEntries table sectionName).insert key value
      | none => (sectionEntries table sectionName).erase key := by
  cases value with
  | some value => exact sectionEntries_insert table sectionName _
  | none =>
      rw [editTable]
      split
      · rename_i entries hentries
        dsimp only
        rw [sectionEntries_insert, sectionEntries, hentries]
      · rename_i hnone
        have hempty : sectionEntries table sectionName = ∅ := by
          rw [sectionEntries]
          split
          · rename_i entries hentries
            exact absurd hentries (hnone entries)
          · rfl
        rw [hempty]
        rfl

theorem getValue_editTable_self (table : TomlTable ν) (sectionName key : String)
    (value : Option ν) :
    getValue (editTable table sectionName key value) sectionName key = value := by
  rw [getValue_eq, sectionEntries_editTable]
  cases value with
  | some value => exact Finmap.lookup_insert _
  | none => exact Finmap.lookup_erase key _

theorem getValue_editTable_of_ne (table : TomlTable ν) (sectionName : String) {key other : String}
    (value : Option ν) (hne : other ≠ key) :
    getValue (editTable table sectionName key value) sectionName other =
      getValue table sectionName other := by
  rw [getValue_eq, getValue_eq, sectionEntries_editTable]
  cases value with
  | some value => exact Finmap.lookup_insert_of_ne _ hne
  | none => exact Finmap.lookup_erase_ne hne

/-- An edit changes no lookup exactly if the key has the value already. -/
theorem getValue_editTable_iff (table : TomlTable ν) (sectionName key : String)
    (value : Option ν) :
    (∀ other otherKey, getValue (editTable table sectionName key value) other otherKey =
      getValue table other otherKey) ↔ getValue table sectionName key = value := by
  constructor
  · intro hsame
    rw [← hsame, getValue_editTable_self]
  · intro hvalue other otherKey
    by_cases hother : other = sectionName
    · rw [hother]
      by_cases hkey : otherKey = key
      · rw [hkey, getValue_editTable_self, hvalue]
      · exact getValue_editTable_of_ne table sectionName value hkey
    · rw [getValue, getValue, lookup_editTable_of_ne table key value hother]

end Backstitch
