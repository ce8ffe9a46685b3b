/-
# What the cached table says of the file

The metadata that vouches for the cached table is read after the table: once behind the file
and once behind the rename.  An edit that comes in between counts as seen.  In runs without
such edits, and without a `set` that fails after its edit, the cached table is that of the
file whenever the metadata says so.
-/

import Backstitch.Project.FileBackedToml

namespace Backstitch

universe u

variable {ν : Type u} (texts : TomlTexts ν)

/-- The table that a file holds; no file holds an empty one. -/
def parsedFile (file : Option BackingFile) : Option (TomlTable ν) :=
  match file with
  | none => some ∅
  | some file => texts.parse file.content

/-- The content of the file is read or written, and its metadata is to be read. -/
def TomlPhase.AwaitsMetadata : TomlPhase ν → Prop
  | .rewritten _ | .tableRead _ _ | .renamed => True
  | _ => False

/-- `set` has edited the stored table, and the edit is not on record yet. -/
def TomlPhase.AfterEdit : TomlPhase ν → Prop
  | .edited | .writing _ | .renamed => True
  | _ => False

/-- No other program writes or deletes the file before its metadata is read, and no `set`
fails after its edit. -/
def SeesEdits (state : TomlState ν) : TomlEvent ν → Prop
  | .write _ | .remove => ¬ state.phase.AwaitsMetadata
  | .fail => ¬ state.phase.AfterEdit
  | .proceed =>
      state.phase = .edited → (texts.toStringPretty state.inner.table).isSome = true
  | .call _ => True

/-- The call takes steps, and no other program does. -/
def Alone (_ : TomlState ν) : TomlEvent ν → Prop
  | .proceed => True
  | _ => False

/-- Every entry other than the key's own is kept. -/
def KeepsOthers (sectionName key : String) (before after : TomlTable ν) : Prop :=
  (∀ other, other ≠ sectionName → after.lookup other = before.lookup other) ∧
    ∀ other, other ≠ key → getValue after sectionName other = getValue before sectionName other

/-- **The cache neither hides nor destroys an edit**: where no call is in progress, cached
metadata that equals the file's vouches for the cached table, and a `set` that runs alone
keeps every other key of the file. -/
structure KeepsEdits (state : TomlState ν) : Prop where
  vouches : state.phase = .idle → state.inner.metadata = state.fileMetadata →
    parsedFile texts state.file = some state.inner.table
  keeps : ∀ sectionName key value next final table,
    state.step texts (.call (.set sectionName key value)) = some next →
    (tomlSystem texts).Leads Alone next final → final.phase = .idle →
    parsedFile texts state.file = some table →
      ∃ kept, parsedFile texts final.file = some kept ∧ KeepsOthers sectionName key table kept

/-! ## The invariant -/

/-- The cached metadata vouches for the cached table, now and after the file is deleted. -/
structure Vouched (state : TomlState ν) : Prop where
  ofNone : state.inner.metadata = none → state.inner.table = ∅
  ofSome : ∀ file, state.file = some file → state.inner.metadata = some file.metadata →
    texts.parse file.content = some state.inner.table

/-- The file holds this table. -/
def Holds (state : TomlState ν) (table : TomlTable ν) : Prop :=
  ∃ file, state.file = some file ∧ texts.parse file.content = some table

/-- What the run has made sure of where the call stands. -/
def KnownAt (state : TomlState ν) : Prop :=
  match state.phase with
  | .idle | .started _ | .stale _ | .creating _ | .loaded _ => Vouched texts state
  | .rewriting _ contents =>
      Vouched texts state ∧ texts.toStringPretty state.inner.table = some contents
  | .rewritten _ => Vouched texts state ∧ Holds texts state state.inner.table
  | .tableRead _ table => Vouched texts state ∧ Holds texts state table
  | .edited => True
  | .writing contents => texts.toStringPretty state.inner.table = some contents
  | .renamed => Holds texts state state.inner.table

/-- The invariant of runs that see every edit. -/
structure CacheInvariant (state : TomlState ν) : Prop where
  fresh : state.Fresh
  known : KnownAt texts state

variable {texts}

theorem Vouched.vouches {state : TomlState ν} (hvouched : Vouched texts state)
    (hmetadata : state.inner.metadata = state.fileMetadata) :
    parsedFile texts state.file = some state.inner.table := by
  unfold parsedFile
  split
  · rename_i hfile
    rw [TomlState.fileMetadata, hfile] at hmetadata
    rw [hvouched.ofNone hmetadata]
  · rename_i file hfile
    rw [TomlState.fileMetadata, hfile] at hmetadata
    exact hvouched.ofSome file hfile hmetadata

/-- New content has metadata that nothing vouches for. -/
theorem Vouched.replaceFile {state : TomlState ν} (hvouched : Vouched texts state)
    (hfresh : state.Fresh) (content : String) : Vouched texts (state.replaceFile content) where
  ofNone := hvouched.ofNone
  ofSome _ hfile hmetadata := by
    cases hfile
    exact absurd (hfresh.cached _ hmetadata) (lt_irrefl _)

theorem Vouched.remove {state : TomlState ν} (hvouched : Vouched texts state) :
    Vouched texts { state with file := none } where
  ofNone := hvouched.ofNone
  ofSome _ hfile := nomatch hfile

/-- Once its metadata is read, the table that the file holds is vouched for. -/
theorem Holds.vouched {state : TomlState ν} {table : TomlTable ν}
    (hholds : Holds texts state table) (phase : TomlPhase ν)
    (returned : Option (CallResult ν)) :
    Vouched texts { state with
      inner := { table := table, metadata := state.fileMetadata }
      phase := phase
      returned := returned } where
  ofNone hnone := by
    obtain ⟨file, hfile, -⟩ := hholds
    simp [TomlState.fileMetadata, hfile] at hnone
  ofSome file hfile _ := by
    obtain ⟨held, hheld, hparse⟩ := hholds
    cases hheld.symm.trans hfile
    exact hparse

/-- The steps of a call keep the invariant, unless an edited table cannot be serialized. -/
theorem CacheInvariant.proceeds {state next : TomlState ν} (hinvariant : CacheInvariant texts state)
    (hallowed : SeesEdits texts state .proceed) (hstep : Proceeds texts state next) :
    CacheInvariant texts next := by
  obtain ⟨hfresh, hknown⟩ := hinvariant
  refine ⟨hfresh.proceeds hstep, ?_⟩
  rw [KnownAt] at hknown
  cases hstep with
  | unmoved call hphase hmetadata =>
      rw [hphase] at hknown
      exact ⟨hknown.ofNone, hknown.ofSome⟩
  | moved call hphase hmetadata =>
      rw [hphase] at hknown
      exact ⟨hknown.ofNone, hknown.ofSome⟩
  | missing call hphase hfile =>
      rw [hphase] at hknown
      exact ⟨hknown.ofNone, hknown.ofSome⟩
  | read call file table hphase hfile hparse =>
      rw [hphase] at hknown
      exact ⟨⟨hknown.ofNone, hknown.ofSome⟩, file, hfile, hparse⟩
  | invalid call file contents hphase hfile hparse hcontents =>
      rw [hphase] at hknown
      exact ⟨⟨hknown.ofNone, hknown.ofSome⟩, hcontents⟩
  | notSerialized call file hphase hfile hparse hcontents =>
      rw [hphase] at hknown
      exact ⟨hknown.ofNone, hknown.ofSome⟩
  | create call hphase =>
      rw [hphase] at hknown
      have hreplaced := hknown.replaceFile hfresh ""
      exact ⟨⟨hreplaced.ofNone, hreplaced.ofSome⟩, _, rfl, texts.parse_empty⟩
  | rewrite call contents hphase =>
      rw [hphase] at hknown
      obtain ⟨hvouched, hcontents⟩ := hknown
      have hreplaced := hvouched.replaceFile hfresh contents
      exact ⟨⟨hreplaced.ofNone, hreplaced.ofSome⟩, _, rfl,
        texts.parse_toStringPretty _ _ hcontents⟩
  | refresh call hphase =>
      rw [hphase] at hknown
      obtain ⟨file, hfile, hparse⟩ := hknown.2
      exact ⟨hknown.2.vouched _ _, file, hfile, hparse⟩
  | store call table hphase =>
      rw [hphase] at hknown
      exact hknown.2.vouched _ _
  | found sectionName key hphase =>
      rw [hphase] at hknown
      exact ⟨hknown.ofNone, hknown.ofSome⟩
  | edit sectionName key value hphase => trivial
  | serialize contents hphase hcontents =>
      exact hcontents
  | editNotSerialized hphase hcontents =>
      have hserialized := hallowed hphase
      rw [hcontents] at hserialized
      nomatch hserialized
  | rename contents hphase =>
      rw [hphase] at hknown
      exact ⟨_, rfl, texts.parse_toStringPretty _ _ hknown⟩
  | finish hphase =>
      rw [hphase] at hknown
      exact hknown.vouched _ _

/-- What a call knows when it fails before an edit is true of the cache. -/
theorem KnownAt.vouched {state : TomlState ν} (hknown : KnownAt texts state)
    (hphase : ¬ state.phase.AfterEdit) : Vouched texts state := by
  unfold KnownAt at hknown
  unfold TomlPhase.AfterEdit at hphase
  split at hknown
  · exact hknown
  · exact hknown
  · exact hknown
  · exact hknown
  · exact hknown
  · exact hknown.1
  · exact hknown.1
  · exact hknown.1
  · simp_all
  · simp_all
  · simp_all

/-- Another program's edit leaves what is known of the cache, unless the metadata of the file
is still to be read. -/
theorem KnownAt.changeFile {state : TomlState ν} (hknown : KnownAt texts state)
    (hphase : ¬ state.phase.AwaitsMetadata) {file : Option BackingFile} {clock : ℕ}
    (hvouched : Vouched texts state →
      Vouched texts { state with file := file, clock := clock }) :
    KnownAt texts { state with file := file, clock := clock } := by
  obtain ⟨inner, oldFile, phase, returned, oldClock⟩ := state
  cases phase with
  | idle => exact hvouched hknown
  | started call => exact hvouched hknown
  | stale call => exact hvouched hknown
  | creating call => exact hvouched hknown
  | loaded call => exact hvouched hknown
  | rewriting call contents => exact ⟨hvouched hknown.1, hknown.2⟩
  | edited => trivial
  | writing contents => exact hknown
  | rewritten call => exact absurd trivial hphase
  | tableRead call table => exact absurd trivial hphase
  | renamed => exact absurd trivial hphase

/-- **Every step of a run that sees every edit keeps the invariant.** -/
theorem CacheInvariant.step {state next : TomlState ν} {event : TomlEvent ν}
    (hinvariant : CacheInvariant texts state) (hallowed : SeesEdits texts state event)
    (hstep : state.step texts event = some next) : CacheInvariant texts next := by
  cases event with
  | call call =>
      rw [TomlState.step] at hstep
      split at hstep
      · rename_i hphase
        cases hstep
        have hvouched := hinvariant.known.vouched (by rw [hphase]; exact id)
        exact ⟨⟨hinvariant.fresh.cached, hinvariant.fresh.file⟩,
          ⟨hvouched.ofNone, hvouched.ofSome⟩⟩
      · nomatch hstep
  | proceed => exact hinvariant.proceeds hallowed (proceeds_of_proceed hstep)
  | fail =>
      have hvouched := hinvariant.known.vouched hallowed
      rw [TomlState.step] at hstep
      split at hstep
      · nomatch hstep
      · nomatch hstep
      · cases hstep
        exact ⟨⟨hinvariant.fresh.cached, hinvariant.fresh.file⟩,
          ⟨hvouched.ofNone, hvouched.ofSome⟩⟩
  | write content =>
      cases hstep
      exact ⟨hinvariant.fresh.replaceFile content, hinvariant.known.changeFile hallowed
        fun hvouched => hvouched.replaceFile hinvariant.fresh content⟩
  | remove =>
      cases hstep
      exact ⟨⟨hinvariant.fresh.cached, fun _ hfile => nomatch hfile⟩,
        hinvariant.known.changeFile hallowed Vouched.remove⟩

/-- **In every run that sees every edit, the invariant holds.** -/
theorem cacheInvariant_of_reachable {state : TomlState ν}
    (hreach : (tomlSystem texts).Reachable (SeesEdits texts) state) :
    CacheInvariant texts state := by
  refine hreach.invariant ?_ ?_
  · rintro state ⟨hinner, hphase, hfresh⟩
    refine ⟨hfresh, ?_⟩
    rw [KnownAt, hphase]
    refine ⟨fun _ => by rw [hinner], fun file _ hmetadata => ?_⟩
    rw [hinner] at hmetadata
    nomatch hmetadata
  · intro state event next hinvariant hallowed hstep
    exact hinvariant.step hallowed hstep

/-! ## A `set` that runs alone -/

theorem keepsOthers_refl (sectionName key : String) (table : TomlTable ν) :
    KeepsOthers sectionName key table table :=
  ⟨fun _ _ => rfl, fun _ _ => rfl⟩

theorem keepsOthers_editTable (table : TomlTable ν) (sectionName key : String)
    (value : Option ν) :
    KeepsOthers sectionName key table (editTable table sectionName key value) :=
  ⟨fun _ hne => lookup_editTable_of_ne table key value hne,
    fun _ hne => getValue_editTable_of_ne table sectionName value hne⟩

/-- Where a `set` stands that runs alone on a file with this table. -/
def SetsAlone (texts : TomlTexts ν) (sectionName key : String) (value : Option ν)
    (table : TomlTable ν) (state : TomlState ν) : Prop :=
  match state.phase with
  | .idle => ∃ kept, parsedFile texts state.file = some kept ∧
      KeepsOthers sectionName key table kept
  | .started call => call = .set sectionName key value ∧
      parsedFile texts state.file = some table ∧ Vouched texts state
  | .stale call => call = .set sectionName key value ∧
      parsedFile texts state.file = some table
  | .creating call => call = .set sectionName key value ∧ table = ∅
  | .rewriting _ _ | .rewritten _ => False
  | .tableRead call read => call = .set sectionName key value ∧ read = table ∧
      parsedFile texts state.file = some table
  | .loaded call => call = .set sectionName key value ∧ state.inner.table = table ∧
      parsedFile texts state.file = some table
  | .edited => state.inner.table = editTable table sectionName key value ∧
      parsedFile texts state.file = some table
  | .writing contents =>
      texts.toStringPretty (editTable table sectionName key value) = some contents
  | .renamed => parsedFile texts state.file = some (editTable table sectionName key value)

/-- Each step of the `set` leads to the next one. -/
theorem SetsAlone.proceeds {sectionName key : String} {value : Option ν} {table : TomlTable ν}
    {state next : TomlState ν} (hsets : SetsAlone texts sectionName key value table state)
    (hstep : Proceeds texts state next) : SetsAlone texts sectionName key value table next := by
  rw [SetsAlone] at hsets
  cases hstep with
  | unmoved call hphase hmetadata =>
      rw [hphase] at hsets
      obtain ⟨hcall, hfile, hvouched⟩ := hsets
      have hcached := hvouched.vouches hmetadata.symm
      exact ⟨hcall, Option.some.inj (hcached.symm.trans hfile), hfile⟩
  | moved call hphase hmetadata =>
      rw [hphase] at hsets
      exact ⟨hsets.1, hsets.2.1⟩
  | missing call hphase hfile =>
      rw [hphase, hfile] at hsets
      exact ⟨hsets.1, (Option.some.inj hsets.2).symm⟩
  | read call file read hphase hfile hparse =>
      rw [hphase, hfile] at hsets
      refine ⟨hsets.1, Option.some.inj (hparse.symm.trans hsets.2), ?_⟩
      dsimp only
      rw [hfile]
      exact hsets.2
  | invalid call file contents hphase hfile hparse hcontents =>
      rw [hphase, hfile] at hsets
      nomatch hparse.symm.trans hsets.2
  | notSerialized call file hphase hfile hparse hcontents =>
      rw [hphase, hfile] at hsets
      nomatch hparse.symm.trans hsets.2
  | create call hphase =>
      rw [hphase] at hsets
      obtain ⟨hcall, rfl⟩ := hsets
      exact ⟨hcall, rfl, texts.parse_empty⟩
  | rewrite call contents hphase =>
      rw [hphase] at hsets
      exact hsets.elim
  | refresh call hphase =>
      rw [hphase] at hsets
      exact hsets.elim
  | store call read hphase =>
      rw [hphase] at hsets
      exact hsets
  | found other otherKey hphase =>
      rw [hphase] at hsets
      nomatch hsets.1
  | edit other otherKey otherValue hphase =>
      rw [hphase] at hsets
      obtain ⟨hcall, htable, hfile⟩ := hsets
      cases hcall
      exact ⟨by rw [htable], hfile⟩
  | serialize contents hphase hcontents =>
      rw [hphase] at hsets
      rw [hsets.1] at hcontents
      exact hcontents
  | editNotSerialized hphase hcontents =>
      rw [hphase] at hsets
      exact ⟨table, hsets.2, keepsOthers_refl sectionName key table⟩
  | rename contents hphase =>
      rw [hphase] at hsets
      exact texts.parse_toStringPretty _ _ hsets
  | finish hphase =>
      rw [hphase] at hsets
      exact ⟨_, hsets, keepsOthers_editTable table sectionName key value⟩

/-- A `set` that starts from a cache that is vouched for and runs alone keeps every other key. -/
theorem keepsOthers_of_alone {state next final : TomlState ν} {sectionName key : String}
    {value : Option ν} {table : TomlTable ν} (hknown : KnownAt texts state)
    (hcall : state.step texts (.call (.set sectionName key value)) = some next)
    (hleads : (tomlSystem texts).Leads Alone next final) (hidle : final.phase = .idle)
    (hfile : parsedFile texts state.file = some table) :
    ∃ kept, parsedFile texts final.file = some kept ∧ KeepsOthers sectionName key table kept := by
  have hsets : SetsAlone texts sectionName key value table final := by
    clear hidle
    induction hleads with
    | refl =>
        rw [TomlState.step] at hcall
        split at hcall
        · rename_i hphase
          rw [KnownAt, hphase] at hknown
          cases hcall
          exact ⟨rfl, hfile, hknown.ofNone, hknown.ofSome⟩
        · nomatch hcall
    | @step middle last event _ halone hstep ih =>
        cases event with
        | proceed => exact ih.proceeds (proceeds_of_proceed hstep)
        | call call => exact halone.elim
        | fail => exact halone.elim
        | write content => exact halone.elim
        | remove => exact halone.elim
  rw [SetsAlone, hidle] at hsets
  exact hsets

/-- **In every run that sees every edit, no edit is hidden or destroyed.** -/
theorem keepsEdits_of_reachable {state : TomlState ν}
    (hreach : (tomlSystem texts).Reachable (SeesEdits texts) state) : KeepsEdits texts state := by
  have hknown := (cacheInvariant_of_reachable hreach).known
  constructor
  · intro hidle hmetadata
    rw [KnownAt, hidle] at hknown
    exact hknown.vouches hmetadata
  · intro sectionName key value next final table hcall hleads hfinal hfile
    exact keepsOthers_of_alone hknown hcall hleads hfinal hfile

/-! ## An edit behind the read -/

/-- The table of a file with one entry. -/
def userTable (name : ℕ) : TomlTable ℕ :=
  Finmap.singleton "backstitch" (.table (Finmap.singleton "user_name" name))

/-- Two tables with one entry, and the empty one. -/
def userTexts : TomlTexts ℕ where
  parse content :=
    if content = "" then some ∅
    else if content = "[backstitch]\nuser_name = 1\n" then some (userTable 1)
    else if content = "[backstitch]\nuser_name = 2\n" then some (userTable 2)
    else none
  toStringPretty table :=
    if table = ∅ then some ""
    else if table = userTable 1 then some "[backstitch]\nuser_name = 1\n"
    else if table = userTable 2 then some "[backstitch]\nuser_name = 2\n"
    else none
  parse_toStringPretty table contents hcontents := by
    split_ifs at hcontents with hempty hfirst hsecond
    · cases hcontents
      rw [hempty]
      rfl
    · cases hcontents
      rw [hfirst]
      rfl
    · cases hcontents
      rw [hsecond]
      rfl
  parse_empty := rfl

/-- The file of a user whose name is 1, and a new `FileBackedToml`. -/
def userFile : TomlState ℕ where
  inner := { table := ∅, metadata := none }
  file := some { content := "[backstitch]\nuser_name = 1\n", metadata := 0 }
  phase := .idle
  returned := none
  clock := 1

theorem start_userFile : (tomlSystem userTexts).start userFile :=
  ⟨rfl, rfl, fun _ hmetadata => (nomatch hmetadata), fun _ hfile => by cases hfile; decide⟩

/-- The file is read, and then another program changes the name to 2. -/
def editAfterGet : List (TomlEvent ℕ) :=
  [.call (.get "backstitch" "user_name"), .proceed, .proceed, .proceed, .proceed,
    .write "[backstitch]\nuser_name = 2\n"]

/-- The change comes after the call. -/
theorem keepsEdits_editAfterGet :
    KeepsEdits userTexts ((tomlSystem userTexts).after userFile editAfterGet) := by
  apply keepsEdits_of_reachable
  apply (System.Reachable.start start_userFile).after
  refine .cons trivial rfl (.cons (fun hphase => nomatch hphase) rfl ?_)
  refine .cons (fun hphase => nomatch hphase) rfl (.cons (fun hphase => nomatch hphase) rfl ?_)
  exact .cons (fun hphase => nomatch hphase) rfl (.cons id rfl trivial)

/-- The file is read, another program changes the name to 2, and the metadata of the change is
read. -/
def editInGet : List (TomlEvent ℕ) :=
  [.call (.get "backstitch" "user_name"), .proceed, .proceed,
    .write "[backstitch]\nuser_name = 2\n", .proceed, .proceed]

/-- The metadata of the change vouches for the table that was read before. -/
theorem not_keepsEdits_editInGet :
    ¬ ∀ state, (tomlSystem userTexts).Reachable (fun _ event => event ≠ .fail) state →
      KeepsEdits userTexts state := by
  intro hkeeps
  have hwithin : (tomlSystem userTexts).RunsWithin (fun _ event => event ≠ .fail) userFile
      editInGet :=
    System.runsWithin_of_forall (fun event hmem _ => by
      rintro rfl
      simp [editInGet] at hmem) userFile
  have hreach := (System.Reachable.start start_userFile).after hwithin
  have hvouches : some (userTable 2) = some (userTable 1) := (hkeeps _ hreach).vouches rfl rfl
  have hname := congrArg (getValue · "backstitch" "user_name") (Option.some.inj hvouches)
  exact absurd hname (by decide)

end Backstitch
