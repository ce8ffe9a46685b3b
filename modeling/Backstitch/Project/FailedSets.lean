/-
# Sets that fail

`set` edits the stored table before it writes the file, and takes the edit back on no error.
Later lookups are those without the `set` exactly if it failed before the edit, or if the
edit changes nothing.
-/

import Backstitch.Project.ConfigCache

namespace Backstitch

universe u

variable {ν : Type u} (texts : TomlTexts ν)

/-- The table that a call works on once it has reloaded the file, if that can be done. -/
def effectiveTable (state : TomlState ν) : Option (TomlTable ν) :=
  if state.fileMetadata = state.inner.metadata then some state.inner.table
  else
    match state.file with
    | none => some ∅
    | some file =>
        match texts.parse file.content with
        | some table => some table
        | none => (texts.toStringPretty state.inner.table).map fun _ => state.inner.table

/-- A `get` that nothing disturbs. -/
def getAlone (state : TomlState ν) (query : String × String) : TomlState ν :=
  (tomlSystem texts).after state
    (.call (.get query.1 query.2) :: List.replicate 6 .proceed)

/-- The results of later calls of `get`, one after another. -/
def laterGets : TomlState ν → List (String × String) → List (Option (CallResult ν))
  | _, [] => []
  | state, query :: queries =>
      let next := getAlone texts state query
      next.returned :: laterGets next queries

/-- What a `get` of the key returns. -/
def getResult (table : Option (TomlTable ν)) (query : String × String) : CallResult ν :=
  match table with
  | some table => .value (getValue table query.1 query.2)
  | none => .failed

/-- Every later `get` returns in one state what it returns in another. -/
def SameGets (first second : TomlState ν) : Prop :=
  ∀ queries, laterGets texts first queries = laterGets texts second queries

variable {texts}

/-- Where the metadata is the cached one, `get` looks the key up. -/
theorem getAlone_of_eq {state : TomlState ν} (hidle : state.phase = .idle)
    (hmetadata : state.fileMetadata = state.inner.metadata) (query : String × String) :
    getAlone texts state query =
      state.returns (.value (getValue state.inner.table query.1 query.2)) := by
  obtain ⟨inner, file, phase, returned, clock⟩ := state
  cases hidle
  simp only [TomlState.fileMetadata] at hmetadata
  simp [getAlone, System.after, tomlSystem, TomlState.step, TomlState.proceed,
    TomlState.fileMetadata, hmetadata, TomlState.returns, List.replicate]

/-- Where there is no file, `get` creates one. -/
theorem getAlone_of_missing {state : TomlState ν} (hidle : state.phase = .idle)
    (hmetadata : state.fileMetadata ≠ state.inner.metadata) (hfile : state.file = none)
    (query : String × String) :
    getAlone texts state query =
      { state.replaceFile "" with
        inner := { table := ∅, metadata := some state.clock }
        returned := some (.value (getValue ∅ query.1 query.2)) } := by
  obtain ⟨inner, file, phase, returned, clock⟩ := state
  cases hidle
  cases hfile
  have hcached : none ≠ inner.metadata := hmetadata
  simp [getAlone, System.after, tomlSystem, TomlState.step, TomlState.proceed,
    TomlState.fileMetadata, hcached, TomlState.returns, TomlState.replaceFile, List.replicate]

/-- Where the file is valid, `get` reads it. -/
theorem getAlone_of_valid {state : TomlState ν} (hidle : state.phase = .idle)
    (hmetadata : state.fileMetadata ≠ state.inner.metadata) {file : BackingFile}
    (hfile : state.file = some file) {table : TomlTable ν}
    (hparse : texts.parse file.content = some table) (query : String × String) :
    getAlone texts state query =
      { state with
        inner := { table := table, metadata := some file.metadata }
        returned := some (.value (getValue table query.1 query.2)) } := by
  obtain ⟨inner, file, phase, returned, clock⟩ := state
  cases hidle
  cases hfile
  have hcached : some file.metadata ≠ inner.metadata := hmetadata
  simp [getAlone, System.after, tomlSystem, TomlState.step, TomlState.proceed,
    TomlState.fileMetadata, hcached, hparse, TomlState.returns, List.replicate]

/-- Where the file is not valid, `get` writes the cached table over it. -/
theorem getAlone_of_invalid {state : TomlState ν} (hidle : state.phase = .idle)
    (hmetadata : state.fileMetadata ≠ state.inner.metadata) {file : BackingFile}
    (hfile : state.file = some file) (hparse : texts.parse file.content = none)
    {contents : String} (hcontents : texts.toStringPretty state.inner.table = some contents)
    (query : String × String) :
    getAlone texts state query =
      { state.replaceFile contents with
        inner := { table := state.inner.table, metadata := some state.clock }
        returned := some (.value (getValue state.inner.table query.1 query.2)) } := by
  obtain ⟨inner, _, phase, returned, clock⟩ := state
  cases hidle
  cases hfile
  have hcached : some file.metadata ≠ inner.metadata := hmetadata
  dsimp only at hcontents
  simp [getAlone, System.after, tomlSystem, TomlState.step, TomlState.proceed,
    TomlState.fileMetadata, hcached, hparse, hcontents, TomlState.returns,
    TomlState.replaceFile, List.replicate]

/-- Where the cached table cannot be written over an invalid file, `get` fails. -/
theorem getAlone_of_notSerialized {state : TomlState ν} (hidle : state.phase = .idle)
    (hmetadata : state.fileMetadata ≠ state.inner.metadata) {file : BackingFile}
    (hfile : state.file = some file) (hparse : texts.parse file.content = none)
    (hcontents : texts.toStringPretty state.inner.table = none) (query : String × String) :
    getAlone texts state query = state.returns .failed := by
  obtain ⟨inner, _, phase, returned, clock⟩ := state
  cases hidle
  cases hfile
  have hcached : some file.metadata ≠ inner.metadata := hmetadata
  dsimp only at hcontents
  simp [getAlone, System.after, tomlSystem, TomlState.step, TomlState.proceed,
    TomlState.fileMetadata, hcached, hparse, hcontents, TomlState.returns, List.replicate]

/-- The effective table where the metadata is the cached one. -/
theorem effectiveTable_of_eq {state : TomlState ν}
    (hmetadata : state.fileMetadata = state.inner.metadata) :
    effectiveTable texts state = some state.inner.table :=
  if_pos hmetadata

/-- A valid file makes the effective table, wherever the cached metadata is not newer. -/
theorem effectiveTable_of_parse {state : TomlState ν} {file : BackingFile}
    (hfile : state.file = some file) {table : TomlTable ν}
    (hparse : texts.parse file.content = some table)
    (hmetadata : state.fileMetadata ≠ state.inner.metadata) :
    effectiveTable texts state = some table := by
  rw [effectiveTable, if_neg hmetadata, hfile]
  dsimp only
  rw [hparse]

/-- **A `get` returns the value of the effective table**, and keeps this table. -/
theorem getAlone_spec {state : TomlState ν} (hidle : state.phase = .idle) (hfresh : state.Fresh)
    (query : String × String) :
    (getAlone texts state query).returned = some (getResult (effectiveTable texts state) query) ∧
      effectiveTable texts (getAlone texts state query) = effectiveTable texts state ∧
      (getAlone texts state query).phase = .idle ∧ (getAlone texts state query).Fresh := by
  by_cases hmetadata : state.fileMetadata = state.inner.metadata
  · rw [getAlone_of_eq hidle hmetadata, effectiveTable_of_eq hmetadata]
    exact ⟨rfl, if_pos hmetadata, rfl, hfresh.cached, hfresh.file⟩
  · rcases hfile : state.file with _ | file
    · rw [getAlone_of_missing hidle hmetadata hfile]
      have heffective : effectiveTable texts state = some ∅ := by
        rw [effectiveTable, if_neg hmetadata, hfile]
      have hclock := hfresh.replaceFile ""
      rw [heffective]
      refine ⟨rfl, if_pos rfl, hidle, fun metadata hcached => ?_, hclock.file⟩
      cases hcached
      exact Nat.lt_succ_self _
    · rcases hparse : texts.parse file.content with _ | table
      · rcases hcontents : texts.toStringPretty state.inner.table with _ | contents
        · rw [getAlone_of_notSerialized hidle hmetadata hfile hparse hcontents]
          have heffective : effectiveTable texts state = none := by
            rw [effectiveTable, if_neg hmetadata, hfile]
            dsimp only
            rw [hparse, hcontents]
            rfl
          rw [heffective]
          exact ⟨rfl, heffective, rfl, hfresh.cached, hfresh.file⟩
        · rw [getAlone_of_invalid hidle hmetadata hfile hparse hcontents]
          have heffective : effectiveTable texts state = some state.inner.table := by
            rw [effectiveTable, if_neg hmetadata, hfile]
            dsimp only
            rw [hparse, hcontents]
            rfl
          have hclock := hfresh.replaceFile contents
          rw [heffective]
          refine ⟨rfl, if_pos rfl, hidle, fun metadata hcached => ?_, hclock.file⟩
          cases hcached
          exact Nat.lt_succ_self _
      · rw [getAlone_of_valid hidle hmetadata hfile hparse,
          effectiveTable_of_parse hfile hparse hmetadata]
        refine ⟨rfl, if_pos ?_, hidle, fun metadata hcached => ?_, hfresh.file⟩
        · rw [TomlState.fileMetadata, hfile]
          rfl
        · cases hcached
          exact hfresh.file file hfile

/-- What later calls of `get` return is looked up in the effective table. -/
theorem laterGets_eq {state : TomlState ν} (hidle : state.phase = .idle) (hfresh : state.Fresh)
    (queries : List (String × String)) :
    laterGets texts state queries =
      queries.map fun query => some (getResult (effectiveTable texts state) query) := by
  induction queries generalizing state with
  | nil => rfl
  | cons query queries ih =>
      obtain ⟨hreturned, heffective, hnext, hfreshNext⟩ :=
        getAlone_spec hidle hfresh query
      rw [laterGets]
      rw [ih hnext hfreshNext, hreturned, heffective, List.map_cons]

/-- Two states with the same results of `get` have effective tables with the same entries. -/
theorem sameGets_iff {first second : TomlState ν} (hfirst : first.phase = .idle)
    (hfresh : first.Fresh) (hsecond : second.phase = .idle) (hfreshSecond : second.Fresh) :
    SameGets texts first second ↔ ∀ query,
      getResult (effectiveTable texts first) query =
        getResult (effectiveTable texts second) query := by
  constructor
  · intro hsame query
    have hquery := hsame [query]
    rw [laterGets_eq hfirst hfresh, laterGets_eq hsecond hfreshSecond] at hquery
    exact Option.some.inj (List.cons.inj hquery).1
  · intro hsame queries
    rw [laterGets_eq hfirst hfresh, laterGets_eq hsecond hfreshSecond]
    exact List.map_congr_left fun query _ => congrArg some (hsame query)

/-! ## A `set` that fails -/

/-- A `set` that runs alone up to a state in which its next step fails. -/
structure FailedSet (texts : TomlTexts ν) (sectionName key : String) (value : Option ν)
    (start last final : TomlState ν) : Prop where
  leads : ∃ next, start.step texts (.call (.set sectionName key value)) = some next ∧
    (tomlSystem texts).Leads Alone next last
  fails : last.step texts .fail = some final ∨ last.step texts .proceed = some final
  idle : final.phase = .idle
  returned : final.returned = some .failed

/-- A step that fails only gives the lock back. -/
theorem FailedSet.final_eq {sectionName key : String} {value : Option ν}
    {start last final : TomlState ν}
    (hset : FailedSet texts sectionName key value start last final) :
    final = last.returns .failed := by
  have hidle := hset.idle
  have hreturned := hset.returned
  rcases hset.fails with hfail | hproceed
  · rw [TomlState.step] at hfail
    split at hfail
    · cases hfail
    · cases hfail
    · cases hfail
      rfl
  · cases proceeds_of_proceed hproceed with
    | notSerialized => rfl
    | editNotSerialized => rfl
    | found => cases hreturned
    | finish => cases hreturned
    | unmoved => cases hidle
    | moved => cases hidle
    | missing => cases hidle
    | read => cases hidle
    | invalid => cases hidle
    | create => cases hidle
    | rewrite => cases hidle
    | refresh => cases hidle
    | store => cases hidle
    | edit => cases hidle
    | serialize => cases hidle
    | rename => cases hidle

/-- What a `set` has done to the table of its first state where it stands. -/
def Underway (texts : TomlTexts ν) (sectionName key : String) (value : Option ν)
    (start state : TomlState ν) : Prop :=
  match state.phase with
  | .idle => True
  | .started call => call = .set sectionName key value ∧
      state.inner = start.inner ∧ state.file = start.file
  | .stale call => call = .set sectionName key value ∧
      state.inner = start.inner ∧ state.file = start.file ∧
        start.fileMetadata ≠ start.inner.metadata
  | .creating call => call = .set sectionName key value ∧
      state.inner = start.inner ∧ state.file = start.file ∧ effectiveTable texts start = some ∅
  | .rewriting call contents => call = .set sectionName key value ∧
      state.inner = start.inner ∧ state.file = start.file ∧
        effectiveTable texts start = some state.inner.table ∧
          texts.toStringPretty state.inner.table = some contents
  | .rewritten call => call = .set sectionName key value ∧
      effectiveTable texts start = some state.inner.table ∧
        effectiveTable texts state = some state.inner.table
  | .tableRead call table => call = .set sectionName key value ∧
      effectiveTable texts start = some table ∧ effectiveTable texts state = some table
  | .loaded call => call = .set sectionName key value ∧
      effectiveTable texts start = some state.inner.table ∧
        state.fileMetadata = state.inner.metadata
  | .edited => ∃ table, effectiveTable texts start = some table ∧
      state.inner.table = editTable table sectionName key value ∧
        state.fileMetadata = state.inner.metadata
  | .writing contents => ∃ table, effectiveTable texts start = some table ∧
      state.inner.table = editTable table sectionName key value ∧
        state.fileMetadata = state.inner.metadata ∧
          texts.toStringPretty state.inner.table = some contents
  | .renamed => ∃ table, effectiveTable texts start = some table ∧
      effectiveTable texts state = some (editTable table sectionName key value)

/-- The effective table depends on the cache and the file only. -/
theorem effectiveTable_congr {first second : TomlState ν} (hinner : first.inner = second.inner)
    (hfile : first.file = second.file) :
    effectiveTable texts first = effectiveTable texts second := by
  rw [effectiveTable, effectiveTable, TomlState.fileMetadata, TomlState.fileMetadata, hinner,
    hfile]

/-- A file that was just written makes the effective table. -/
theorem effectiveTable_replaceFile {state : TomlState ν} (hfresh : state.Fresh)
    {contents : String} {table : TomlTable ν} (hparse : texts.parse contents = some table) :
    effectiveTable texts (state.replaceFile contents) = some table := by
  apply effectiveTable_of_parse rfl hparse
  intro hmetadata
  exact absurd (hfresh.cached state.clock hmetadata.symm) (lt_irrefl _)

theorem Underway.proceeds {sectionName key : String} {value : Option ν}
    {start state next : TomlState ν} (hunder : Underway texts sectionName key value start state)
    (hfresh : state.Fresh) (hstep : Proceeds texts state next) :
    Underway texts sectionName key value start next := by
  rw [Underway] at hunder
  cases hstep with
  | unmoved call hphase hmetadata =>
      rw [hphase] at hunder
      obtain ⟨hcall, hinner, hfile⟩ := hunder
      refine ⟨hcall, ?_, hmetadata⟩
      rw [← effectiveTable_congr hinner hfile]
      exact effectiveTable_of_eq hmetadata
  | moved call hphase hmetadata =>
      rw [hphase] at hunder
      obtain ⟨hcall, hinner, hfile⟩ := hunder
      refine ⟨hcall, hinner, hfile, ?_⟩
      rwa [TomlState.fileMetadata, ← hinner, ← hfile]
  | missing call hphase hmissing =>
      rw [hphase] at hunder
      obtain ⟨hcall, hinner, hfile, hmetadata⟩ := hunder
      refine ⟨hcall, hinner, hfile, ?_⟩
      rw [effectiveTable, if_neg hmetadata, ← hfile, hmissing]
  | read call file table hphase hread hparse =>
      rw [hphase] at hunder
      obtain ⟨hcall, hinner, hfile, hmetadata⟩ := hunder
      have heffective : effectiveTable texts start = some table :=
        effectiveTable_of_parse (hfile ▸ hread) hparse hmetadata
      refine ⟨hcall, heffective, ?_⟩
      rw [← heffective]
      exact effectiveTable_congr hinner hfile
  | invalid call file contents hphase hread hparse hcontents =>
      rw [hphase] at hunder
      obtain ⟨hcall, hinner, hfile, hmetadata⟩ := hunder
      refine ⟨hcall, hinner, hfile, ?_, hcontents⟩
      rw [hinner] at hcontents
      rw [effectiveTable, if_neg hmetadata, ← hfile, hread]
      dsimp only
      rw [hparse, hcontents, hinner]
      rfl
  | notSerialized => trivial
  | create call hphase =>
      rw [hphase] at hunder
      obtain ⟨hcall, -, -, heffective⟩ := hunder
      exact ⟨hcall, heffective, effectiveTable_replaceFile hfresh texts.parse_empty⟩
  | rewrite call contents hphase =>
      rw [hphase] at hunder
      obtain ⟨hcall, -, -, heffective, hcontents⟩ := hunder
      exact ⟨hcall, heffective,
        effectiveTable_replaceFile hfresh (texts.parse_toStringPretty _ _ hcontents)⟩
  | refresh call hphase =>
      rw [hphase] at hunder
      obtain ⟨hcall, heffective, -⟩ := hunder
      exact ⟨hcall, heffective, effectiveTable_of_eq rfl⟩
  | store call table hphase =>
      rw [hphase] at hunder
      obtain ⟨hcall, heffective, -⟩ := hunder
      exact ⟨hcall, heffective, rfl⟩
  | found => trivial
  | edit other otherKey otherValue hphase =>
      rw [hphase] at hunder
      obtain ⟨hcall, heffective, hmetadata⟩ := hunder
      cases hcall
      exact ⟨state.inner.table, heffective, rfl, hmetadata⟩
  | serialize contents hphase hcontents =>
      rw [hphase] at hunder
      obtain ⟨table, heffective, htable, hmetadata⟩ := hunder
      exact ⟨table, heffective, htable, hmetadata, hcontents⟩
  | editNotSerialized => trivial
  | rename contents hphase =>
      rw [hphase] at hunder
      obtain ⟨table, heffective, htable, -, hcontents⟩ := hunder
      have hparse := texts.parse_toStringPretty _ _ hcontents
      rw [htable] at hparse
      exact ⟨table, heffective, effectiveTable_replaceFile hfresh hparse⟩
  | finish => trivial

/-- Up to its failing step, the `set` is under way. -/
theorem FailedSet.underway {sectionName key : String} {value : Option ν}
    {start last final : TomlState ν} (hfresh : start.Fresh)
    (hset : FailedSet texts sectionName key value start last final) :
    Underway texts sectionName key value start last ∧ last.Fresh := by
  obtain ⟨next, hcall, hleads⟩ := hset.leads
  clear hset
  induction hleads with
  | refl =>
      rw [TomlState.step] at hcall
      split at hcall
      · cases hcall
        exact ⟨⟨rfl, rfl, rfl⟩, hfresh.cached, hfresh.file⟩
      · cases hcall
  | @step middle last event _ halone hstep ih =>
      cases event with
      | proceed =>
          have hproceeds := proceeds_of_proceed hstep
          exact ⟨ih.1.proceeds ih.2 hproceeds, ih.2.proceeds hproceeds⟩
      | call call => exact halone.elim
      | fail => exact halone.elim
      | write content => exact halone.elim
      | remove => exact halone.elim

/-- Before the edit, the effective table is that of the first state. -/
theorem Underway.effectiveTable_eq {sectionName key : String} {value : Option ν}
    {start state : TomlState ν} (hunder : Underway texts sectionName key value start state)
    (hbusy : state.phase ≠ .idle) (hphase : ¬ state.phase.AfterEdit) :
    effectiveTable texts state = effectiveTable texts start := by
  unfold Underway at hunder
  split at hunder
  · exact absurd ‹_› hbusy
  · exact effectiveTable_congr hunder.2.1 hunder.2.2
  · exact effectiveTable_congr hunder.2.1 hunder.2.2.1
  · exact effectiveTable_congr hunder.2.1 hunder.2.2.1
  · exact effectiveTable_congr hunder.2.1 hunder.2.2.1
  · exact hunder.2.2.trans hunder.2.1.symm
  · exact hunder.2.2.trans hunder.2.1.symm
  · exact (effectiveTable_of_eq hunder.2.2).trans hunder.2.1.symm
  · rename_i hedited
    exact absurd (by rw [hedited]; trivial) hphase
  · rename_i hwriting
    exact absurd (by rw [hwriting]; trivial) hphase
  · rename_i hrenamed
    exact absurd (by rw [hrenamed]; trivial) hphase

/-- Behind the edit, the effective table is the edited one. -/
theorem Underway.effectiveTable_edited {sectionName key : String} {value : Option ν}
    {start state : TomlState ν} (hunder : Underway texts sectionName key value start state)
    (hphase : state.phase.AfterEdit) :
    ∃ table, effectiveTable texts start = some table ∧
      effectiveTable texts state = some (editTable table sectionName key value) := by
  unfold TomlPhase.AfterEdit at hphase
  rw [Underway] at hunder
  split at hphase
  · rename_i hedited
    rw [hedited] at hunder
    obtain ⟨table, heffective, htable, hmetadata⟩ := hunder
    exact ⟨table, heffective, by rw [effectiveTable_of_eq hmetadata, htable]⟩
  · rename_i hwriting
    rw [hwriting] at hunder
    obtain ⟨table, heffective, htable, hmetadata, -⟩ := hunder
    exact ⟨table, heffective, by rw [effectiveTable_of_eq hmetadata, htable]⟩
  · rename_i hrenamed
    rwa [hrenamed] at hunder
  · exact hphase.elim

/-- No step of an idle state fails. -/
theorem FailedSet.busy {sectionName key : String} {value : Option ν}
    {start last final : TomlState ν}
    (hset : FailedSet texts sectionName key value start last final) : last.phase ≠ .idle := by
  intro hidle
  rcases hset.fails with hfail | hproceed
  · rw [TomlState.step, hidle] at hfail
    cases hfail
  · rw [TomlState.step, TomlState.proceed, hidle] at hproceed
    cases hproceed

/-- **Exactly when a failed `set` changes nothing**: it failed before the edit, or the key had
the value already. -/
theorem failedSet_sameGets_iff {sectionName key : String} {value : Option ν}
    {start last final : TomlState ν} (hfresh : start.Fresh)
    (hset : FailedSet texts sectionName key value start last final) :
    SameGets texts final start ↔
      ¬ last.phase.AfterEdit ∨ ∀ table, effectiveTable texts start = some table →
        getValue table sectionName key = value := by
  obtain ⟨hunder, hlast⟩ := hset.underway hfresh
  have hfinal := hset.final_eq
  have hstart : start.phase = .idle := by
    obtain ⟨next, hcall, -⟩ := hset.leads
    rw [TomlState.step] at hcall
    split at hcall
    · assumption
    · cases hcall
  have heffective : effectiveTable texts final = effectiveTable texts last := by
    rw [hfinal]
    exact effectiveTable_congr rfl rfl
  have hfreshFinal : final.Fresh := by
    rw [hfinal]
    exact ⟨hlast.cached, hlast.file⟩
  rw [sameGets_iff hset.idle hfreshFinal hstart hfresh, heffective]
  by_cases hphase : last.phase.AfterEdit
  · obtain ⟨table, htable, hedited⟩ := hunder.effectiveTable_edited hphase
    rw [or_iff_right (not_not.mpr hphase), hedited, htable]
    have hresults : (∀ query, getResult (some (editTable table sectionName key value)) query =
        getResult (some table) query) ↔ getValue table sectionName key = value := by
      rw [← getValue_editTable_iff]
      constructor
      · intro hsame other otherKey
        exact CallResult.value.inj (hsame (other, otherKey))
      · intro hsame query
        exact congrArg CallResult.value (hsame query.1 query.2)
    rw [hresults]
    constructor
    · intro hvalue other hother
      rwa [← Option.some.inj hother]
    · intro hvalue
      exact hvalue table rfl
  · rw [hunder.effectiveTable_eq hset.busy hphase]
    exact iff_of_true (fun _ => rfl) (.inl hphase)

/-! ## Failures before and after the edit -/

/-- A `set` has started. -/
def startedSet : TomlState ℕ :=
  { userFile with
    phase := .started (.set "backstitch" "user_name" (some 2))
    returned := none }

/-- Where the first step fails, nothing changes. -/
theorem sameGets_startedSet : SameGets userTexts (startedSet.returns .failed) userFile := by
  have hset : FailedSet userTexts "backstitch" "user_name" (some 2) userFile startedSet
      (startedSet.returns .failed) :=
    ⟨⟨startedSet, rfl, .refl⟩, .inl rfl, rfl, rfl⟩
  exact (failedSet_sameGets_iff start_userFile.2.2 hset).mpr (.inl id)

/-- The name 2 is to be written over the name 1. -/
def writingSet : TomlState ℕ :=
  { userFile with
    inner := { table := userTable 2, metadata := some 0 }
    phase := .writing "[backstitch]\nuser_name = 2\n"
    returned := none }

/-- Where the file cannot be renamed, the next `get` returns the name 2. -/
theorem not_sameGets_writingSet :
    FailedSet userTexts "backstitch" "user_name" (some 2) userFile writingSet
        (writingSet.returns .failed) ∧
      ¬ SameGets userTexts (writingSet.returns .failed) userFile := by
  constructor
  · have hafter : (tomlSystem userTexts).after startedSet (List.replicate 5 .proceed) =
        writingSet := rfl
    have hleads : (tomlSystem userTexts).Leads Alone startedSet writingSet := by
      rw [← hafter]
      apply System.Leads.refl.after
      exact System.runsWithin_of_forall (fun event hmem _ => by
        rw [List.eq_of_mem_replicate hmem]
        trivial) startedSet
    exact ⟨⟨startedSet, rfl, hleads⟩, .inl rfl, rfl, rfl⟩
  · intro hsame
    have hname : [some (CallResult.value (some 2))] = [some (CallResult.value (some 1))] :=
      hsame [("backstitch", "user_name")]
    cases hname

end Backstitch
