/-
# The cache of file hashes

`get_hash` reads the metadata of a file, looks for an entry with this metadata, and otherwise
hashes the file chunk by chunk and stores the hash under the metadata that it read first.
Calls, other writers and `clear_cache` interleave in any order.  Every change of a content
gives the file metadata that no file at its path had before; what is read of a file that
changed since it was opened may be anything.
-/

import Backstitch.Library.System
import Mathlib.Algebra.GroupWithZero.Nat
import Mathlib.Data.List.Infix
import Mathlib.Logic.Function.Basic

namespace Backstitch.FileIndex

universe u v w

/-- What `get_hash` uses of the metadata of a file. -/
structure FileMetadata where
  modified : ℕ
  len : ℕ
  deriving DecidableEq

structure IndexedFile (β : Type v) where
  content : List β
  metadata : FileMetadata
  deriving DecidableEq

/-- An entry of the cache. -/
structure FileEntry (δ : Type w) where
  lastModified : ℕ
  size : ℕ
  hash : δ
  deriving DecidableEq

namespace FileEntry

variable {δ : Type w}

def fromMetadata (metadata : FileMetadata) (hash : δ) : FileEntry δ :=
  { lastModified := metadata.modified, size := metadata.len, hash := hash }

def «matches» (entry : FileEntry δ) (metadata : FileMetadata) : Bool :=
  entry.lastModified == metadata.modified && entry.size == metadata.len

/-- The metadata that the entry is stored under. -/
def metadata (entry : FileEntry δ) : FileMetadata :=
  { modified := entry.lastModified, len := entry.size }

@[simp] theorem metadata_fromMetadata (metadata : FileMetadata) (hash : δ) :
    (fromMetadata metadata hash).metadata = metadata := rfl

@[simp] theorem hash_fromMetadata (metadata : FileMetadata) (hash : δ) :
    (fromMetadata metadata hash).hash = hash := rfl

@[simp] theorem matches_iff (entry : FileEntry δ) (metadata : FileMetadata) :
    entry.matches metadata ↔ entry.metadata = metadata := by
  cases metadata
  simp [FileEntry.matches, FileEntry.metadata]

end FileEntry

/-- `IndexError`, where the files can be read. -/
inductive IndexError
  | filesystemError
  | fileNotFound
  deriving DecidableEq

/-- Where a call of `get_hash` stands. -/
inductive HashPhase (β : Type v) (δ : Type w)
  | started
  /-- The metadata is read; the cache is to be asked. -/
  | looking (metadata : FileMetadata)
  /-- The cache has no entry with this metadata. -/
  | opening (metadata : FileMetadata)
  /-- The file had the metadata `opened` when it was opened; some of it is hashed. -/
  | hashing (metadata opened : FileMetadata) (bytes : List β)
  /-- The hash is to be stored. -/
  | hashed (metadata : FileMetadata) (hash : δ)
  | returned (result : Except IndexError δ)
  | cancelled

structure HashCall (κ : Type u) (β : Type v) (δ : Type w) where
  path : κ
  /-- The keyspace that the index of the call has a handle of. -/
  keyspace : ℕ
  phase : HashPhase β δ

structure IndexState (κ : Type u) (β : Type v) (δ : Type w) where
  files : κ → Option (IndexedFile β)
  /-- The metadata that files at a path had so far. -/
  used : κ → List FileMetadata
  /-- The entries of every keyspace that was ever created. -/
  entries : ℕ → κ → Option (FileEntry δ)
  /-- The keyspace that was created last. -/
  keyspace : ℕ
  calls : ℕ → Option (HashCall κ β δ)

inductive IndexEvent (κ : Type u) (β : Type v)
  /-- A call starts, with a handle of any keyspace. -/
  | getHash (id : ℕ) (path : κ) (keyspace : ℕ)
  | readMetadata (id : ℕ)
  | lookup (id : ℕ) (databaseFails : Bool)
  | openFile (id : ℕ)
  /-- A read of the open file yields a chunk, an empty one at the end. -/
  | readChunk (id : ℕ) (chunk : List β)
  | insert (id : ℕ) (databaseFails : Bool)
  /-- The future of the call is dropped. -/
  | cancel (id : ℕ)
  /-- A file is written, in part or as a whole, or created. -/
  | write (path : κ) (content : List β) (metadata : FileMetadata)
  | remove (path : κ)
  | clearCache

namespace IndexEvent

variable {κ : Type u} {β : Type v}

/-- The event changes what is at the path. -/
def Changes (path : κ) : IndexEvent κ β → Prop
  | .write changed _ _ | .remove changed => changed = path
  | _ => False

/-- The event is a step that the call takes. -/
def StepOf (id : ℕ) : IndexEvent κ β → Prop
  | .readMetadata caller | .lookup caller _ | .openFile caller | .readChunk caller _
  | .insert caller _ => caller = id
  | _ => False

end IndexEvent

variable {κ : Type u} {β : Type v} {δ : Type w} [DecidableEq κ] [DecidableEq β]

namespace IndexState

/-- A call goes on. -/
def setPhase (state : IndexState κ β δ) (id : ℕ) (call : HashCall κ β δ)
    (phase : HashPhase β δ) : IndexState κ β δ :=
  { state with calls := Function.update state.calls id (some { call with phase := phase }) }

/-- `get_hash_from_db`. -/
def getHashFromDb (state : IndexState κ β δ) (call : HashCall κ β δ)
    (metadata : FileMetadata) : Option δ :=
  (state.entries call.keyspace call.path).bind fun entry =>
    if entry.matches metadata then some entry.hash else none

/-- `insert_hash_into_db`. -/
def insertHashIntoDb (state : IndexState κ β δ) (call : HashCall κ β δ)
    (metadata : FileMetadata) (hash : δ) : IndexState κ β δ :=
  { state with
    entries := Function.update state.entries call.keyspace
      (Function.update (state.entries call.keyspace) call.path
        (some (.fromMetadata metadata hash))) }

/-- What `read` may yield next; of a file that changed since it was opened, anything. -/
def yields (file : Option (IndexedFile β)) (opened : FileMetadata) (bytes chunk : List β) : Bool :=
  chunk.length ≤ 1024 * 1024 &&
    file.all fun file => file.metadata ≠ opened ||
      (bytes ++ chunk).isPrefixOf file.content && (chunk ≠ [] || bytes = file.content)

/-- What one event does. -/
def step (hash : List β → δ) (state : IndexState κ β δ) :
    IndexEvent κ β → Option (IndexState κ β δ)
  | .getHash id path keyspace =>
      match state.calls id with
      | none =>
          if keyspace ≤ state.keyspace then
            some (state.setPhase id { path, keyspace, phase := .started } .started)
          else none
      | some _ => none
  | .readMetadata id => (state.calls id).bind fun call =>
      match call.phase, state.files call.path with
      | .started, some file => some (state.setPhase id call (.looking file.metadata))
      | .started, none => some (state.setPhase id call (.returned (.error .fileNotFound)))
      | _, _ => none
  | .lookup id databaseFails => (state.calls id).bind fun call =>
      match call.phase with
      | .looking metadata =>
          match if databaseFails then none else state.getHashFromDb call metadata with
          | some found => some (state.setPhase id call (.returned (.ok found)))
          | none => some (state.setPhase id call (.opening metadata))
      | _ => none
  | .openFile id => (state.calls id).bind fun call =>
      match call.phase, state.files call.path with
      | .opening metadata, some file =>
          some (state.setPhase id call (.hashing metadata file.metadata []))
      | .opening _, none => some (state.setPhase id call (.returned (.error .filesystemError)))
      | _, _ => none
  | .readChunk id chunk => (state.calls id).bind fun call =>
      match call.phase with
      | .hashing metadata opened bytes =>
          if yields (state.files call.path) opened bytes chunk then
            if chunk = [] then some (state.setPhase id call (.hashed metadata (hash bytes)))
            else some (state.setPhase id call (.hashing metadata opened (bytes ++ chunk)))
          else none
      | _ => none
  | .insert id databaseFails => (state.calls id).bind fun call =>
      match call.phase with
      | .hashed metadata computed =>
          let stored :=
            if databaseFails then state else state.insertHashIntoDb call metadata computed
          some (stored.setPhase id call (.returned (.ok computed)))
      | _ => none
  | .cancel id => (state.calls id).bind fun call => some (state.setPhase id call .cancelled)
  | .write path content metadata =>
      if metadata ∈ state.used path then none
      else some { state with
        files := Function.update state.files path (some { content, metadata })
        used := Function.update state.used path (metadata :: state.used path) }
  | .remove path => some { state with files := Function.update state.files path none }
  | .clearCache =>
      some { state with
        keyspace := state.keyspace + 1
        entries := Function.update state.entries (state.keyspace + 1) fun _ => none }

end IndexState

/-- The runs of an index with an empty cache, over any files. -/
def indexSystem (hash : List β → δ) : System (IndexState κ β δ) (IndexEvent κ β) where
  start state :=
    (∀ id, state.calls id = none) ∧ (∀ keyspace path, state.entries keyspace path = none) ∧
      ∀ path file, state.files path = some file → file.metadata ∈ state.used path
  step := IndexState.step hash

/-! ## What an event can do -/

/-- The steps of an index, one for each branch. -/
inductive IndexStep (hash : List β → δ) (state : IndexState κ β δ) :
    IndexEvent κ β → IndexState κ β δ → Prop
  | started {id keyspace : ℕ} {path : κ} (hnew : state.calls id = none) :
      IndexStep hash state (.getHash id path keyspace)
        (state.setPhase id { path, keyspace, phase := .started } .started)
  | found {id : ℕ} {call : HashCall κ β δ} {file : IndexedFile β}
      (hcall : state.calls id = some call) (hphase : call.phase = .started)
      (hfile : state.files call.path = some file) :
      IndexStep hash state (.readMetadata id) (state.setPhase id call (.looking file.metadata))
  | notFound {id : ℕ} {call : HashCall κ β δ}
      (hcall : state.calls id = some call) (hphase : call.phase = .started)
      (hfile : state.files call.path = none) :
      IndexStep hash state (.readMetadata id)
        (state.setPhase id call (.returned (.error .fileNotFound)))
  | cached {id : ℕ} {call : HashCall κ β δ} {entry : FileEntry δ}
      (hcall : state.calls id = some call) (hphase : call.phase = .looking entry.metadata)
      (hentry : state.entries call.keyspace call.path = some entry) :
      IndexStep hash state (.lookup id false)
        (state.setPhase id call (.returned (.ok entry.hash)))
  | uncached {id : ℕ} {databaseFails : Bool} {call : HashCall κ β δ} {metadata : FileMetadata}
      (hcall : state.calls id = some call) (hphase : call.phase = .looking metadata) :
      IndexStep hash state (.lookup id databaseFails) (state.setPhase id call (.opening metadata))
  | opened {id : ℕ} {call : HashCall κ β δ} {metadata : FileMetadata} {file : IndexedFile β}
      (hcall : state.calls id = some call) (hphase : call.phase = .opening metadata)
      (hfile : state.files call.path = some file) :
      IndexStep hash state (.openFile id)
        (state.setPhase id call (.hashing metadata file.metadata []))
  | gone {id : ℕ} {call : HashCall κ β δ} {metadata : FileMetadata}
      (hcall : state.calls id = some call) (hphase : call.phase = .opening metadata)
      (hfile : state.files call.path = none) :
      IndexStep hash state (.openFile id)
        (state.setPhase id call (.returned (.error .filesystemError)))
  | read {id : ℕ} {chunk bytes : List β} {call : HashCall κ β δ} {metadata opened : FileMetadata}
      (hcall : state.calls id = some call) (hphase : call.phase = .hashing metadata opened bytes)
      (hyields : IndexState.yields (state.files call.path) opened bytes chunk) :
      IndexStep hash state (.readChunk id chunk)
        (state.setPhase id call (.hashing metadata opened (bytes ++ chunk)))
  | ended {id : ℕ} {bytes : List β} {call : HashCall κ β δ} {metadata opened : FileMetadata}
      (hcall : state.calls id = some call) (hphase : call.phase = .hashing metadata opened bytes)
      (hyields : IndexState.yields (state.files call.path) opened bytes []) :
      IndexStep hash state (.readChunk id [])
        (state.setPhase id call (.hashed metadata (hash bytes)))
  | inserted {id : ℕ} {call : HashCall κ β δ} {metadata : FileMetadata} {computed : δ}
      (hcall : state.calls id = some call) (hphase : call.phase = .hashed metadata computed) :
      IndexStep hash state (.insert id false)
        ((state.insertHashIntoDb call metadata computed).setPhase id call
          (.returned (.ok computed)))
  | notInserted {id : ℕ} {call : HashCall κ β δ} {metadata : FileMetadata} {computed : δ}
      (hcall : state.calls id = some call) (hphase : call.phase = .hashed metadata computed) :
      IndexStep hash state (.insert id true) (state.setPhase id call (.returned (.ok computed)))
  | cancelled {id : ℕ} {call : HashCall κ β δ} (hcall : state.calls id = some call) :
      IndexStep hash state (.cancel id) (state.setPhase id call .cancelled)
  | written {path : κ} {content : List β} {metadata : FileMetadata}
      (hnew : metadata ∉ state.used path) :
      IndexStep hash state (.write path content metadata) { state with
        files := Function.update state.files path (some { content, metadata })
        used := Function.update state.used path (metadata :: state.used path) }
  | removed {path : κ} :
      IndexStep hash state (.remove path)
        { state with files := Function.update state.files path none }
  | cleared :
      IndexStep hash state .clearCache { state with
        keyspace := state.keyspace + 1
        entries := Function.update state.entries (state.keyspace + 1) fun _ => none }

namespace IndexState

omit [DecidableEq κ] [DecidableEq β] in
theorem getHashFromDb_eq_some {state : IndexState κ β δ} {call : HashCall κ β δ}
    {metadata : FileMetadata} {found : δ}
    (hfound : state.getHashFromDb call metadata = some found) :
    ∃ entry, state.entries call.keyspace call.path = some entry ∧ entry.metadata = metadata ∧
      entry.hash = found := by
  obtain ⟨entry, hentry, hfound⟩ := Option.bind_eq_some_iff.mp hfound
  obtain ⟨hmatches, hhash⟩ := Option.ite_none_right_eq_some.mp hfound
  exact ⟨entry, hentry, (entry.matches_iff metadata).mp hmatches, Option.some.inj hhash⟩

/-- **Every step is one of these.** -/
theorem indexStep_of_step {hash : List β → δ} {state next : IndexState κ β δ}
    {event : IndexEvent κ β} (hstep : state.step hash event = some next) :
    IndexStep hash state event next := by
  cases event with
  | getHash id path keyspace =>
      simp only [step] at hstep
      split at hstep
      · next hnew =>
        obtain ⟨-, hstarted⟩ := Option.ite_none_right_eq_some.mp hstep
        cases hstarted
        exact .started hnew
      · cases hstep
  | readMetadata id =>
      obtain ⟨call, hcall, hstep⟩ := Option.bind_eq_some_iff.mp hstep
      split at hstep
      · cases hstep
        exact .found hcall ‹_› ‹_›
      · cases hstep
        exact .notFound hcall ‹_› ‹_›
      · cases hstep
  | lookup id databaseFails =>
      obtain ⟨call, hcall, hstep⟩ := Option.bind_eq_some_iff.mp hstep
      split at hstep
      · next metadata hphase =>
        split at hstep
        · next found hfound =>
          cases hstep
          cases databaseFails with
          | true => cases hfound
          | false =>
              obtain ⟨entry, hentry, rfl, rfl⟩ := getHashFromDb_eq_some hfound
              exact .cached hcall hphase hentry
        · cases hstep
          exact .uncached hcall hphase
      · cases hstep
  | openFile id =>
      obtain ⟨call, hcall, hstep⟩ := Option.bind_eq_some_iff.mp hstep
      split at hstep
      · cases hstep
        exact .opened hcall ‹_› ‹_›
      · cases hstep
        exact .gone hcall ‹_› ‹_›
      · cases hstep
  | readChunk id chunk =>
      obtain ⟨call, hcall, hstep⟩ := Option.bind_eq_some_iff.mp hstep
      split at hstep
      · next metadata opened bytes hphase =>
        obtain ⟨hyields, hturn⟩ := Option.ite_none_right_eq_some.mp hstep
        by_cases hempty : chunk = []
        · subst hempty
          cases hturn
          exact .ended hcall hphase hyields
        · rw [if_neg hempty] at hturn
          cases hturn
          exact .read hcall hphase hyields
      · cases hstep
  | insert id databaseFails =>
      obtain ⟨call, hcall, hstep⟩ := Option.bind_eq_some_iff.mp hstep
      split at hstep
      · next metadata computed hphase =>
        cases hstep
        cases databaseFails with
        | true => exact .notInserted hcall hphase
        | false => exact .inserted hcall hphase
      · cases hstep
  | cancel id =>
      obtain ⟨call, hcall, hstep⟩ := Option.bind_eq_some_iff.mp hstep
      cases hstep
      exact .cancelled hcall
  | write path content metadata =>
      obtain ⟨hnew, hwritten⟩ := Option.ite_none_left_eq_some.mp hstep
      cases hwritten
      exact .written hnew
  | remove path =>
      cases hstep
      exact .removed
  | clearCache =>
      cases hstep
      exact .cleared

end IndexState

/-! ## The invariant -/

/-- What holds of the content at a path as long as the metadata there is this one; the
metadata is not one to come. -/
structure Vouches (used : List FileMetadata) (current : Option (IndexedFile β))
    (metadata : FileMetadata) (holds : List β → Prop) : Prop where
  used : metadata ∈ used
  current : ∀ file, current = some file → file.metadata = metadata → holds file.content

/-- What a call knows of the file that it is about. -/
def SoundPhase (hash : List β → δ) (used : List FileMetadata)
    (current : Option (IndexedFile β)) : HashPhase β δ → Prop
  | .looking metadata | .opening metadata => Vouches used current metadata fun _ => True
  | .hashing metadata opened bytes =>
      Vouches used current metadata (fun _ => opened = metadata) ∧
        Vouches used current opened fun content => bytes <+: content
  | .hashed metadata computed =>
      Vouches used current metadata fun content => computed = hash content
  | .started | .returned _ | .cancelled => True

/-- No entry and no call has a wrong hash for metadata that a file can have again. -/
structure HashInvariant (hash : List β → δ) (state : IndexState κ β δ) : Prop where
  files : ∀ path file, state.files path = some file → file.metadata ∈ state.used path
  entries : ∀ keyspace path entry, state.entries keyspace path = some entry →
    Vouches (state.used path) (state.files path) entry.metadata fun content =>
      entry.hash = hash content
  calls : ∀ id call, state.calls id = some call →
    SoundPhase hash (state.used call.path) (state.files call.path) call.phase

section
variable {hash : List β → δ} {state next : IndexState κ β δ}

omit [DecidableEq κ] [DecidableEq β] in
/-- Of the metadata of the file that is there, what its content meets. -/
theorem HashInvariant.vouches (hinvariant : HashInvariant hash state) {path : κ}
    {file : IndexedFile β} (hfile : state.files path = some file) {holds : List β → Prop}
    (hholds : holds file.content) :
    Vouches (state.used path) (state.files path) file.metadata holds := by
  refine ⟨hinvariant.files path file hfile, fun other hother _ => ?_⟩
  rwa [← Option.some.inj (hfile.symm.trans hother)]

/-- Metadata is vouched for whatever happens next. -/
theorem Vouches.step {event : IndexEvent κ β} (hstep : IndexStep hash state event next)
    {path : κ} {metadata : FileMetadata} {holds : List β → Prop}
    (hvouches : Vouches (state.used path) (state.files path) metadata holds) :
    Vouches (next.used path) (next.files path) metadata holds := by
  cases hstep with
  | @written changed content fresh hnew =>
      by_cases hpath : path = changed
      · subst hpath
        refine ⟨by simpa using Or.inr hvouches.used, fun file hfile hmetadata => ?_⟩
        simp only [Function.update_self, Option.some.injEq] at hfile
        subst hfile
        rw [← hmetadata] at hvouches
        exact absurd hvouches.used hnew
      · constructor
        · simpa only [Function.update_of_ne hpath] using hvouches.used
        · simpa only [Function.update_of_ne hpath] using hvouches.current
  | @removed changed =>
      refine ⟨hvouches.used, fun file hfile => hvouches.current file ?_⟩
      by_cases hpath : path = changed
      · subst hpath
        simp only [Function.update_self, reduceCtorEq] at hfile
      · simpa only [Function.update_of_ne hpath] using hfile
  | _ => exact ⟨hvouches.used, hvouches.current⟩

/-- So a call stays sound while others take steps. -/
theorem SoundPhase.step {event : IndexEvent κ β} (hstep : IndexStep hash state event next)
    {path : κ} {phase : HashPhase β δ}
    (hsound : SoundPhase hash (state.used path) (state.files path) phase) :
    SoundPhase hash (next.used path) (next.files path) phase := by
  cases phase with
  | started => trivial
  | looking metadata => exact Vouches.step hstep hsound
  | opening metadata => exact Vouches.step hstep hsound
  | hashing metadata opened bytes =>
      exact ⟨Vouches.step hstep hsound.1, Vouches.step hstep hsound.2⟩
  | hashed metadata computed => exact Vouches.step hstep hsound
  | returned result => trivial
  | cancelled => trivial

omit [DecidableEq κ] [DecidableEq β] in
/-- A call that takes a step stays sound when its new phase is. -/
theorem HashInvariant.setPhase (hinvariant : HashInvariant hash state) {id : ℕ}
    {call : HashCall κ β δ} {phase : HashPhase β δ}
    (hsound : SoundPhase hash (state.used call.path) (state.files call.path) phase) :
    HashInvariant hash (state.setPhase id call phase) := by
  refine ⟨hinvariant.files, hinvariant.entries, fun other caller hcaller => ?_⟩
  by_cases hid : other = id
  · subst hid
    simp only [IndexState.setPhase, Function.update_self, Option.some.injEq] at hcaller
    subst hcaller
    exact hsound
  · simp only [IndexState.setPhase, Function.update_of_ne hid] at hcaller
    exact hinvariant.calls other caller hcaller

omit [DecidableEq β] in
/-- A hash that is right for its metadata can be stored. -/
theorem HashInvariant.insertHashIntoDb (hinvariant : HashInvariant hash state)
    {call : HashCall κ β δ} {metadata : FileMetadata} {computed : δ}
    (hvouches : Vouches (state.used call.path) (state.files call.path) metadata fun content =>
      computed = hash content) :
    HashInvariant hash (state.insertHashIntoDb call metadata computed) := by
  refine ⟨hinvariant.files, fun keyspace path entry hentry => ?_, hinvariant.calls⟩
  by_cases hkeyspace : keyspace = call.keyspace
  · subst hkeyspace
    by_cases hpath : path = call.path
    · subst hpath
      simp only [IndexState.insertHashIntoDb, Function.update_self, Option.some.injEq] at hentry
      subst hentry
      exact hvouches
    · simp only [IndexState.insertHashIntoDb, Function.update_self,
        Function.update_of_ne hpath] at hentry
      exact hinvariant.entries _ path entry hentry
  · simp only [IndexState.insertHashIntoDb, Function.update_of_ne hkeyspace] at hentry
    exact hinvariant.entries keyspace path entry hentry

/-- What was read of a file goes on as the file does, as long as it is the file that was
opened. -/
theorem vouches_yields {used : List FileMetadata} {current : Option (IndexedFile β)}
    {opened : FileMetadata} {bytes chunk : List β} (hused : opened ∈ used)
    (hyields : IndexState.yields current opened bytes chunk) :
    Vouches used current opened fun content =>
      bytes ++ chunk <+: content ∧ (chunk = [] → bytes = content) := by
  refine ⟨hused, fun file hfile hmetadata => ?_⟩
  rw [IndexState.yields, hfile, Option.all_some] at hyields
  have hread := (Bool.and_eq_true_iff.mp hyields).2
  simpa [hmetadata, or_iff_not_imp_left] using hread

/-- At the end of the file that was opened, its hash is computed, and is the hash of what has
the metadata that was read first. -/
theorem vouches_hash {used : List FileMetadata} {current : Option (IndexedFile β)}
    {metadata opened : FileMetadata} {bytes : List β}
    (hsound : SoundPhase hash used current (.hashing metadata opened bytes))
    (hyields : IndexState.yields current opened bytes []) :
    Vouches used current metadata fun content => hash bytes = hash content := by
  refine ⟨hsound.1.used, fun file hfile hmetadata => ?_⟩
  have hopened : opened = metadata := hsound.1.current file hfile hmetadata
  have hread := (vouches_yields hsound.2.used hyields).current file hfile (hopened ▸ hmetadata)
  rw [hread.2 rfl]

/-- **Every step keeps the invariant.** -/
theorem HashInvariant.step {event : IndexEvent κ β} (hinvariant : HashInvariant hash state)
    (hstep : IndexStep hash state event next) : HashInvariant hash next := by
  cases hstep with
  | started hnew => exact hinvariant.setPhase trivial
  | found hcall hphase hfile =>
      exact hinvariant.setPhase (hinvariant.vouches hfile trivial)
  | notFound hcall hphase hfile => exact hinvariant.setPhase trivial
  | cached hcall hphase hentry => exact hinvariant.setPhase trivial
  | @uncached id databaseFails call metadata hcall hphase =>
      have hsound := hinvariant.calls id call hcall
      rw [hphase] at hsound
      exact hinvariant.setPhase hsound
  | @opened id call metadata file hcall hphase hfile =>
      have hsound := hinvariant.calls id call hcall
      rw [hphase] at hsound
      refine hinvariant.setPhase ⟨⟨hsound.used, fun other hother hmetadata => ?_⟩,
        hinvariant.vouches hfile List.nil_prefix⟩
      rw [← hmetadata, Option.some.inj (hfile.symm.trans hother)]
  | gone hcall hphase hfile => exact hinvariant.setPhase trivial
  | @read id chunk bytes call metadata opened hcall hphase hyields =>
      have hsound := hinvariant.calls id call hcall
      rw [hphase] at hsound
      refine hinvariant.setPhase ⟨hsound.1, hsound.2.used, fun file hfile hmetadata => ?_⟩
      exact ((vouches_yields hsound.2.used hyields).current file hfile hmetadata).1
  | @ended id bytes call metadata opened hcall hphase hyields =>
      have hsound := hinvariant.calls id call hcall
      rw [hphase] at hsound
      exact hinvariant.setPhase (vouches_hash hsound hyields)
  | @inserted id call metadata computed hcall hphase =>
      have hsound := hinvariant.calls id call hcall
      rw [hphase] at hsound
      exact (hinvariant.insertHashIntoDb hsound).setPhase trivial
  | notInserted hcall hphase => exact hinvariant.setPhase trivial
  | cancelled hcall => exact hinvariant.setPhase trivial
  | @written changed content metadata hnew =>
      have hwritten : IndexStep hash state (.write changed content metadata) _ := .written hnew
      refine ⟨fun path file hfile => ?_, fun keyspace path entry hentry => ?_,
        fun id call hcall => ?_⟩
      · by_cases hpath : path = changed
        · subst hpath
          simp only [Function.update_self, Option.some.injEq] at hfile ⊢
          subst hfile
          exact List.mem_cons_self
        · simp only [Function.update_of_ne hpath] at hfile ⊢
          exact hinvariant.files path file hfile
      · exact (hinvariant.entries keyspace path entry hentry).step hwritten
      · exact (hinvariant.calls id call hcall).step hwritten
  | @removed changed =>
      have hremoved : IndexStep hash state (.remove changed) _ := .removed
      refine ⟨fun path file hfile => ?_, fun keyspace path entry hentry => ?_,
        fun id call hcall => ?_⟩
      · by_cases hpath : path = changed
        · subst hpath
          simp only [Function.update_self, reduceCtorEq] at hfile
        · simp only [Function.update_of_ne hpath] at hfile
          exact hinvariant.files path file hfile
      · exact (hinvariant.entries keyspace path entry hentry).step hremoved
      · exact (hinvariant.calls id call hcall).step hremoved
  | cleared =>
      refine ⟨hinvariant.files, fun keyspace path entry hentry => ?_, hinvariant.calls⟩
      by_cases hkeyspace : keyspace = state.keyspace + 1
      · subst hkeyspace
        simp only [Function.update_self, reduceCtorEq] at hentry
      · simp only [Function.update_of_ne hkeyspace] at hentry
        exact hinvariant.entries keyspace path entry hentry

/-- **The invariant holds in every run.** -/
theorem hashInvariant_of_reachable {allowed : IndexState κ β δ → IndexEvent κ β → Prop}
    (hreach : (indexSystem hash).Reachable allowed state) : HashInvariant hash state := by
  apply hreach.invariant
  · rintro start ⟨hcalls, hentries, hfiles⟩
    refine ⟨hfiles, fun keyspace path entry hentry => ?_, fun id call hcall => ?_⟩
    · rw [hentries keyspace path] at hentry
      cases hentry
    · rw [hcalls id] at hcall
      cases hcall
  · intro before event after hbefore _ hstep
    exact hbefore.step (IndexState.indexStep_of_step hstep)

end

/-! ## A call without a change -/

/-- What a call knows that began after the last change of its file. -/
def Current (hash : List β → δ) (file : IndexedFile β) : HashPhase β δ → Prop
  | .looking metadata | .opening metadata => metadata = file.metadata
  | .hashing metadata opened bytes =>
      metadata = file.metadata ∧ opened = file.metadata ∧ bytes <+: file.content
  | .hashed _ computed => computed = hash file.content
  | .returned result => result = .ok (hash file.content)
  | .started | .cancelled => True

/-- The file is there, and the call knows it as it is. -/
structure CallCurrent (hash : List β → δ) (id : ℕ) (path : κ) (file : IndexedFile β)
    (state : IndexState κ β δ) : Prop where
  present : state.files path = some file
  called : ∃ call, state.calls id = some call ∧ call.path = path ∧ Current hash file call.phase

section
variable {hash : List β → δ} {state next : IndexState κ β δ} {id : ℕ} {path : κ}
  {file : IndexedFile β}

omit [DecidableEq κ] [DecidableEq β] in
/-- A step of any call: if it is this one, then it still knows the file as it is. -/
theorem CallCurrent.setPhase (hcurrent : CallCurrent hash id path file state) {caller : ℕ}
    {call : HashCall κ β δ} {phase : HashPhase β δ} (hcall : state.calls caller = some call)
    (hphase : call.path = path → Current hash file call.phase → Current hash file phase) :
    CallCurrent hash id path file (state.setPhase caller call phase) := by
  obtain ⟨known, hknown, hpath, hknows⟩ := hcurrent.called
  refine ⟨hcurrent.present, ?_⟩
  by_cases hid : id = caller
  · subst hid
    cases hcall.symm.trans hknown
    exact ⟨{ call with phase }, Function.update_self .., hpath, hphase hpath hknows⟩
  · exact ⟨known, (Function.update_of_ne hid ..).trans hknown, hpath, hknows⟩

/-- **While the file does not change, a call knows it as it is.** -/
theorem CallCurrent.step {event : IndexEvent κ β} (hcurrent : CallCurrent hash id path file state)
    (hinvariant : HashInvariant hash state) (hstep : IndexStep hash state event next)
    (hchanges : ¬ event.Changes path) : CallCurrent hash id path file next := by
  cases hstep with
  | @started caller keyspace changed hnew =>
      obtain ⟨known, hknown, hpath, hknows⟩ := hcurrent.called
      have hid : id ≠ caller := by
        rintro rfl
        cases hnew.symm.trans hknown
      exact ⟨hcurrent.present, known, (Function.update_of_ne hid ..).trans hknown, hpath, hknows⟩
  | found hcall hphase hfile =>
      refine hcurrent.setPhase hcall fun hpath _ => ?_
      rw [hpath] at hfile
      rw [Option.some.inj (hfile.symm.trans hcurrent.present)]
      rfl
  | notFound hcall hphase hfile =>
      refine hcurrent.setPhase hcall fun hpath _ => ?_
      rw [hpath] at hfile
      cases hfile.symm.trans hcurrent.present
  | @cached caller call entry hcall hphase hentry =>
      refine hcurrent.setPhase hcall fun hpath hknows => ?_
      rw [hphase] at hknows
      have hvouches := hinvariant.entries _ _ entry hentry
      rw [hpath] at hvouches
      have hhash : entry.hash = hash file.content :=
        hvouches.current file hcurrent.present hknows.symm
      rw [Current, hhash]
  | uncached hcall hphase =>
      refine hcurrent.setPhase hcall fun _ hknows => ?_
      rwa [hphase] at hknows
  | opened hcall hphase hfile =>
      refine hcurrent.setPhase hcall fun hpath hknows => ?_
      rw [hphase] at hknows
      rw [hpath] at hfile
      cases hfile.symm.trans hcurrent.present
      exact ⟨hknows, rfl, List.nil_prefix⟩
  | gone hcall hphase hfile =>
      refine hcurrent.setPhase hcall fun hpath _ => ?_
      rw [hpath] at hfile
      cases hfile.symm.trans hcurrent.present
  | @read caller chunk bytes call metadata opened hcall hphase hyields =>
      refine hcurrent.setPhase hcall fun hpath hknows => ?_
      have hsound := hinvariant.calls caller call hcall
      rw [hphase] at hknows hsound
      have hread := vouches_yields hsound.2.used hyields
      rw [hpath] at hread
      exact ⟨hknows.1, hknows.2.1, (hread.current file hcurrent.present hknows.2.1.symm).1⟩
  | @ended caller bytes call metadata opened hcall hphase hyields =>
      refine hcurrent.setPhase hcall fun hpath hknows => ?_
      have hsound := hinvariant.calls caller call hcall
      rw [hphase] at hknows hsound
      have hread := vouches_hash hsound hyields
      rw [hpath] at hread
      exact hread.current file hcurrent.present hknows.1.symm
  | @inserted caller call metadata computed hcall hphase =>
      have hinserted : CallCurrent hash id path file
          (state.insertHashIntoDb call metadata computed) := ⟨hcurrent.present, hcurrent.called⟩
      refine hinserted.setPhase hcall fun _ hknows => ?_
      rw [hphase] at hknows
      exact congrArg Except.ok hknows
  | notInserted hcall hphase =>
      refine hcurrent.setPhase hcall fun _ hknows => ?_
      rw [hphase] at hknows
      exact congrArg Except.ok hknows
  | cancelled hcall => exact hcurrent.setPhase hcall fun _ _ => trivial
  | @written changed content metadata hnew =>
      exact ⟨(Function.update_of_ne (Ne.symm hchanges) ..).trans hcurrent.present, hcurrent.called⟩
  | @removed changed =>
      exact ⟨(Function.update_of_ne (Ne.symm hchanges) ..).trans hcurrent.present, hcurrent.called⟩
  | cleared => exact ⟨hcurrent.present, hcurrent.called⟩

/-- So it does after any steps that leave the file alone. -/
theorem CallCurrent.leads {allowed : IndexState κ β δ → IndexEvent κ β → Prop}
    {called final : IndexState κ β δ} (hreach : (indexSystem hash).Reachable allowed called)
    (hcurrent : CallCurrent hash id path file called)
    (hleads : (indexSystem hash).Leads (fun _ event => ¬ event.Changes path) called final) :
    CallCurrent hash id path file final := by
  induction hleads with
  | refl => exact hcurrent
  | step hleads hchanges hstep ih =>
      have hall : (indexSystem hash).Reachable (fun _ _ => True) called :=
        hreach.mono fun _ _ _ => trivial
      have hinvariant := hashInvariant_of_reachable (hall.leads hleads fun _ _ _ => trivial)
      exact ih.step hinvariant (IndexState.indexStep_of_step hstep) hchanges

end

/-! ## Every call returns -/

/-- Some steps of the call make it return this. -/
def CanReturn (hash : List β → δ) (state : IndexState κ β δ) (id : ℕ)
    (result : Except IndexError δ) : Prop :=
  ∃ events : List (IndexEvent κ β), (∀ event ∈ events, event.StepOf id) ∧
    ∃ call, ((indexSystem hash).after state events).calls id = some call ∧
      call.phase = .returned result

section
variable {hash : List β → δ} {state next : IndexState κ β δ} {id : ℕ}
  {result : Except IndexError δ}

/-- One more step of the call first. -/
theorem canReturn_of_step {event : IndexEvent κ β} (hstep : state.step hash event = some next)
    (hown : event.StepOf id) (hcan : CanReturn hash next id result) :
    CanReturn hash state id result := by
  obtain ⟨events, hall, hreturns⟩ := hcan
  refine ⟨event :: events, List.forall_mem_cons.mpr ⟨hown, hall⟩, ?_⟩
  rwa [System.after, show (indexSystem hash).step state event = some next from hstep]

/-- A call that returned. -/
theorem canReturn_of_returned {call : HashCall κ β δ} (hcall : state.calls id = some call)
    (hphase : call.phase = .returned result) : CanReturn hash state id result :=
  ⟨[], List.forall_mem_nil _, call, hcall, hphase⟩

/-- A call that has the hash returns it. -/
theorem canReturn_of_hashed {call : HashCall κ β δ} (hcall : state.calls id = some call)
    {metadata : FileMetadata} {computed : δ} (hphase : call.phase = .hashed metadata computed) :
    CanReturn hash state id (.ok computed) := by
  have hstep : state.step hash (.insert id false) = some
      ((state.insertHashIntoDb call metadata computed).setPhase id call
        (.returned (.ok computed))) := by
    simp only [IndexState.step, hcall, Option.bind_some, hphase, Bool.false_eq_true, if_false]
  exact canReturn_of_step hstep rfl (canReturn_of_returned (Function.update_self ..) rfl)

/-- A call that hashes the file reads what is left of it, and returns. -/
theorem canReturn_of_hashing {call : HashCall κ β δ} (hcall : state.calls id = some call)
    {metadata opened : FileMetadata} {bytes rest : List β} {file : IndexedFile β}
    (hfile : state.files call.path = some file) (hcontent : bytes ++ rest = file.content)
    (hphase : call.phase = .hashing metadata opened bytes) :
    CanReturn hash state id (.ok (hash file.content)) := by
  induction rest generalizing state call bytes with
  | nil =>
      rw [List.append_nil] at hcontent
      have hyields : IndexState.yields (state.files call.path) opened bytes [] := by
        simp [IndexState.yields, hfile, hcontent]
      have hstep : state.step hash (.readChunk id []) =
          some (state.setPhase id call (.hashed metadata (hash bytes))) := by
        simp only [IndexState.step, hcall, Option.bind_some, hphase, hyields, if_true]
      rw [← hcontent]
      exact canReturn_of_step hstep rfl (canReturn_of_hashed (Function.update_self ..) rfl)
  | cons byte rest ih =>
      rw [List.append_cons] at hcontent
      have hyields : IndexState.yields (state.files call.path) opened bytes [byte] := by
        simp [IndexState.yields, hfile, ← hcontent]
      have hstep : state.step hash (.readChunk id [byte]) =
          some (state.setPhase id call (.hashing metadata opened (bytes ++ [byte]))) := by
        simp only [IndexState.step, hcall, Option.bind_some, hphase, hyields, if_true,
          List.cons_ne_nil, if_false]
      exact canReturn_of_step hstep rfl (ih (Function.update_self ..) hfile hcontent rfl)

/-- A call that found no entry opens the file. -/
theorem canReturn_of_opening {call : HashCall κ β δ} (hcall : state.calls id = some call)
    {metadata : FileMetadata} {file : IndexedFile β}
    (hfile : state.files call.path = some file) (hphase : call.phase = .opening metadata) :
    CanReturn hash state id (.ok (hash file.content)) := by
  have hstep : state.step hash (.openFile id) =
      some (state.setPhase id call (.hashing metadata file.metadata [])) := by
    simp only [IndexState.step, hcall, Option.bind_some, hphase, hfile]
  apply canReturn_of_step hstep rfl
  exact canReturn_of_hashing (Function.update_self ..) (by exact hfile) (List.nil_append _) rfl

/-- A call that asks the cache goes on without an answer, as when the database fails. -/
theorem canReturn_of_looking {call : HashCall κ β δ} (hcall : state.calls id = some call)
    {metadata : FileMetadata} {file : IndexedFile β}
    (hfile : state.files call.path = some file) (hphase : call.phase = .looking metadata) :
    CanReturn hash state id (.ok (hash file.content)) := by
  have hstep : state.step hash (.lookup id true) =
      some (state.setPhase id call (.opening metadata)) := by
    simp only [IndexState.step, hcall, Option.bind_some, hphase, if_true]
  apply canReturn_of_step hstep rfl
  exact canReturn_of_opening (Function.update_self ..) (by exact hfile) rfl

/-- **A call of a file that is there, and that knows it as it is, can return its hash.** -/
theorem CallCurrent.canReturn {path : κ} {file : IndexedFile β}
    (hcurrent : CallCurrent hash id path file state) :
    ∃ call, state.calls id = some call ∧ call.path = path ∧
      (call.phase ≠ .cancelled → CanReturn hash state id (.ok (hash file.content))) := by
  obtain ⟨call, hcall, rfl, hknows⟩ := hcurrent.called
  have hfile := hcurrent.present
  refine ⟨call, hcall, rfl, fun hcancelled => ?_⟩
  cases hphase : call.phase with
  | started =>
      have hstep : state.step hash (.readMetadata id) =
          some (state.setPhase id call (.looking file.metadata)) := by
        simp only [IndexState.step, hcall, Option.bind_some, hphase, hfile]
      apply canReturn_of_step hstep rfl
      exact canReturn_of_looking (Function.update_self ..) (by exact hfile) rfl
  | looking metadata => exact canReturn_of_looking hcall hfile hphase
  | opening metadata => exact canReturn_of_opening hcall hfile hphase
  | hashing metadata opened bytes =>
      rw [hphase] at hknows
      obtain ⟨rest, hrest⟩ := hknows.2.2
      exact canReturn_of_hashing hcall hfile hrest hphase
  | hashed metadata computed =>
      rw [hphase] at hknows
      rw [← show computed = hash file.content from hknows]
      exact canReturn_of_hashed hcall hphase
  | returned result =>
      rw [hphase] at hknows
      rw [← show result = .ok (hash file.content) from hknows]
      exact canReturn_of_returned hcall hphase
  | cancelled => exact absurd hphase hcancelled

end

/-! ## The cache is coherent -/

/-- **In every run, a call during which its file is not changed returns the hash of the content
of the file: it returns nothing else, and until it is cancelled its own steps can make it
return.** -/
theorem getHash_coherent {hash : List β → δ} {state called final : IndexState κ β δ} {id : ℕ}
    {path : κ} {keyspace : ℕ} {file : IndexedFile β}
    (hreach : (indexSystem hash).Reachable (fun _ _ => True) state)
    (hcall : state.step hash (.getHash id path keyspace) = some called)
    (hleads : (indexSystem hash).Leads (fun _ event => ¬ event.Changes path) called final)
    (hfile : called.files path = some file) :
    ∃ call, final.calls id = some call ∧ call.path = path ∧
      (∀ result, call.phase = .returned result → result = .ok (hash file.content)) ∧
      (call.phase ≠ .cancelled → CanReturn hash final id (.ok (hash file.content))) := by
  have hstarted : CallCurrent hash id path file called := by
    refine ⟨hfile, ?_⟩
    cases IndexState.indexStep_of_step hcall with
    | started hnew => exact ⟨_, Function.update_self .., rfl, trivial⟩
  have hstep : (indexSystem hash).step state (.getHash id path keyspace) = some called := hcall
  have hfinal := hstarted.leads (hreach.step trivial hstep) hleads
  obtain ⟨call, hthis, hpath, hknows⟩ := hfinal.called
  obtain ⟨other, hother, -, hcan⟩ := hfinal.canReturn
  cases hthis.symm.trans hother
  refine ⟨call, hthis, hpath, fun result hresult => ?_, hcan⟩
  rwa [hresult] at hknows

section

/-- A file with two bytes, and an empty cache. -/
def twoBytes : IndexState ℕ ℕ ℕ where
  files path := if path = 0 then some { content := [1, 2], metadata := ⟨0, 2⟩ } else none
  used path := if path = 0 then [⟨0, 2⟩] else []
  entries _ _ := none
  keyspace := 0
  calls _ := none

/-- After a call that hashed one byte of the file before it was written, and one that never was
in it. -/
def tornState : IndexState ℕ ℕ ℕ :=
  (indexSystem List.sum).after twoBytes
    [.getHash 0 0 0, .readMetadata 0, .lookup 0 false, .openFile 0, .readChunk 0 [1],
      .write 0 [3] ⟨1, 1⟩, .readChunk 0 [7], .readChunk 0 [], .insert 0 false]

def calledState : IndexState ℕ ℕ ℕ :=
  (indexSystem List.sum).after tornState [.getHash 1 0 0]

/-- The steps of a call of the file as it is then. -/
def laterSteps : List (IndexEvent ℕ ℕ) :=
  [.readMetadata 1, .lookup 1 false, .openFile 1, .readChunk 1 [3], .readChunk 1 [],
    .insert 1 false]

def laterState : IndexState ℕ ℕ ℕ :=
  (indexSystem List.sum).after calledState laterSteps

/-- What the torn call stored is not what the later one returns. -/
theorem getHash_coherent_tornEntry :
    ∃ call, laterState.calls 1 = some call ∧ call.path = 0 ∧
      (∀ result, call.phase = .returned result → result = .ok ([3] : List ℕ).sum) ∧
      (call.phase ≠ .cancelled → CanReturn List.sum laterState 1 (.ok ([3] : List ℕ).sum)) := by
  have hstart : (indexSystem List.sum).start twoBytes := by
    refine ⟨fun _ => rfl, fun _ _ => rfl, fun path file hfile => ?_⟩
    obtain ⟨hpath, hfile⟩ := Option.ite_none_right_eq_some.mp hfile
    cases hfile
    simp [twoBytes, hpath]
  have hreach : (indexSystem List.sum).Reachable (fun _ _ => True) tornState :=
    (System.Reachable.start hstart).after (System.runsWithin_true twoBytes _)
  have hcall : tornState.step List.sum (.getHash 1 0 0) = some calledState := rfl
  have hleaves : ∀ event ∈ laterSteps, ∀ _ : IndexState ℕ ℕ ℕ, ¬ event.Changes 0 := by
    simp [laterSteps, IndexEvent.Changes]
  have hfile : calledState.files 0 = some { content := [3], metadata := ⟨1, 1⟩ } := rfl
  exact getHash_coherent hreach hcall
    (System.Leads.refl.after (System.runsWithin_of_forall hleaves calledState)) hfile

end

end Backstitch.FileIndex
