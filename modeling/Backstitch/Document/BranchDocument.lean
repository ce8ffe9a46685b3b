/-
# Branch documents and what is committed to them

A branch document has a map `files` from paths to file entries; an entry is an object
with the keys `url`, `content`, `structured_content` and `hash`.  A key is a register: a
put overwrites what its author sees there, and of puts that do not know each other the one
with the greatest id is shown.  An object is named by the id of the operation that made it.

How a text object is updated and read, and how a scene is reconciled into an object and
hydrated from it, is left to `Nested`; so is the text of a document id.
-/

import Backstitch.Library.Registers
import Backstitch.Library.System

namespace Backstitch

universe u₁ u₂ u₃ u₄ u₅ u₆

/-- Text objects `τ`, objects `σ` that hold a scene `ω`, and document ids `ι`. -/
structure Nested (τ : Type u₁) (σ : Type u₂) (ω : Type u₃) (ι : Type u₄) where
  emptyText : τ
  /-- `update_text`. -/
  updateText : τ → List Char → τ
  /-- `text_at`. -/
  textAt : τ → List Char
  textAt_updateText : ∀ object text, textAt (updateText object text) = text
  emptyScene : σ
  /-- `autosurgeon::reconcile`. -/
  reconcile : σ → ω → σ
  /-- `GodotScene::hydrate`, if it succeeds. -/
  hydrate : σ → Option ω
  /-- The text of a document id. -/
  display : ι → List Char
  /-- `DocumentId::from_str`. -/
  fromStr : List Char → Option ι
  fromStr_display : ∀ id, fromStr (display id) = some id

inductive FieldKey
  | url
  | content
  | structuredContent
  | hash
  deriving DecidableEq

/-- A place for a value: a path in `files`, or a key of a file entry. -/
inductive Slot (π : Type u₅)
  | file (path : π)
  | field (entry : ℕ) (key : FieldKey)
  deriving DecidableEq

/-- A value; an object goes by the id of the operation that put it. -/
inductive Value (δ : Type u₆)
  | map
  | text
  | str (text : List Char)
  | bytes (hash : δ)
  deriving DecidableEq

/-- The registers of a branch document, and its text and scene objects. -/
structure BranchDoc (π : Type u₅) (δ : Type u₆) (τ : Type u₁) (σ : Type u₂) where
  ops : OpSet (Slot π) (Value δ)
  texts : ℕ → τ
  scenes : ℕ → σ

/-- `Entry`. -/
inductive CommitEntry (π : Type u₅) (δ : Type u₆) (ω : Type u₃) (ι : Type u₄)
  | binary (path : π) (handle : ι) (hash : δ)
  | text (path : π) (content : List Char) (hash : δ)
  | scene (path : π) (scene : ω) (hash : δ)
  | delete (path : π)
  deriving DecidableEq

inductive ChangeType
  | created
  | modified
  | deleted
  deriving DecidableEq

structure ChangedFile (π : Type u₅) where
  path : π
  changeType : ChangeType
  deriving DecidableEq

/-- What `hydrate_content_at` comes to. -/
inductive Hydrated (ω : Type u₃) (ι : Type u₄)
  | text (content : List Char)
  | scene (scene : ω)
  /-- `Err(Ok(id))`: the content is that of a linked document. -/
  | linked (id : ι)
  /-- `Err(Err(_))`. -/
  | error
  /-- The scene could not be hydrated. -/
  | panic
  deriving DecidableEq

variable {τ : Type u₁} {σ : Type u₂} {ω : Type u₃} {ι : Type u₄} {π : Type u₅} {δ : Type u₆}

def CommitEntry.path : CommitEntry π δ ω ι → π
  | .binary path _ _ | .text path _ _ | .scene path _ _ | .delete path => path

/-- What every document url begins with. -/
def urlScheme : List Char := "automerge:".toList

namespace Nested

variable (nested : Nested τ σ ω ι)

/-- `parse_automerge_url`. -/
def parseAutomergeUrl (url : List Char) : Option ι :=
  if urlScheme <+: url then nested.fromStr (url.drop urlScheme.length) else none

def automergeUrl (id : ι) : List Char :=
  urlScheme ++ nested.display id

@[simp]
theorem parseAutomergeUrl_automergeUrl (id : ι) :
    nested.parseAutomergeUrl (nested.automergeUrl id) = some id := by
  rw [parseAutomergeUrl, automergeUrl, if_pos (List.prefix_append _ _), List.drop_left,
    nested.fromStr_display]

/-- A scene that is reconciled into an object is what is hydrated from it. -/
def HydratesBack : Prop :=
  ∀ object scene, nested.hydrate (nested.reconcile object scene) = some scene

/-- A branch document without files. -/
def emptyDoc : BranchDoc π δ τ σ :=
  ⟨∅, fun _ => nested.emptyText, fun _ => nested.emptyScene⟩

end Nested

namespace BranchDoc

section Read

variable [DecidableEq π] (doc : BranchDoc π δ τ σ)

/-- `get`: the value shown and its id. -/
def get (slot : Slot π) : Option (Value δ × ℕ) :=
  (doc.ops.winner slot).bind fun op => op.value.map fun value => (value, op.id)

/-- `get_all`. -/
def getAll (slot : Slot π) : Multiset (Value δ) :=
  (doc.ops.live slot).val.filterMap Op.value

def getObjId (slot : Slot π) : Option ℕ :=
  match doc.get slot with
  | some (.map, id) | some (.text, id) => some id
  | _ => none

def getString (slot : Slot π) : Option (List Char) :=
  match doc.get slot with
  | some (.str text, _) => some text
  | _ => none

variable (nested : Nested τ σ ω ι)

/-- `GodotScene::hydrate_at`, which looks the entry up again. -/
def hydrateSceneAt (path : π) : Option ω :=
  match doc.getObjId (.file path) with
  | some entry =>
      match doc.get (.field entry .structuredContent) with
      | some (.map, id) => nested.hydrate (doc.scenes id)
      | _ => none
  | none => none

def hydrateContentAt (entry : ℕ) (path : π) : Hydrated ω ι :=
  match doc.get (.field entry .structuredContent) with
  | some _ =>
      match doc.hydrateSceneAt nested path with
      | some scene => .scene scene
      | none => .panic
  | none =>
      match doc.get (.field entry .content) with
      | some (.text, id) => .text (nested.textAt (doc.texts id))
      | some (.str text, _) => .text text
      | _ =>
          match (doc.getString (.field entry .url)).bind nested.parseAutomergeUrl with
          | some id => .linked id
          | none => .error

/-- What `get_files_at_ref` finds at a path that is there. -/
def contentAt (path : π) : Option (Hydrated ω ι) :=
  match doc.get (.file path) with
  | some (.map, entry) => some (doc.hydrateContentAt nested entry path)
  | _ => none

/-- The stored hashes of the entry at a path, conflicting ones included. -/
def hashesAt (path : π) : Multiset (Value δ) :=
  match doc.get (.file path) with
  | some (.map, entry) => doc.getAll (.field entry .hash)
  | _ => 0

end Read

section Write

variable [DecidableEq π] [DecidableEq δ] {actors : ℕ} (actor : Fin actors)
  (doc : BranchDoc π δ τ σ)

/-- `put`; it does nothing where just this value is there already. -/
def put (slot : Slot π) (value : Value δ) : BranchDoc π δ τ σ :=
  if doc.getAll slot = {value} then doc
  else { doc with ops := doc.ops.write (OpSet.freshId actor doc.ops) slot (some value) }

/-- `put_object`, with the id of the new object. -/
def putObject (slot : Slot π) (value : Value δ) : BranchDoc π δ τ σ × ℕ :=
  ({ doc with ops := doc.ops.write (OpSet.freshId actor doc.ops) slot (some value) },
    OpSet.freshId actor doc.ops)

/-- `delete`; it does nothing where nothing is. -/
def delete (slot : Slot π) : BranchDoc π δ τ σ :=
  if doc.ops.live slot = ∅ then doc
  else { doc with ops := doc.ops.write (OpSet.freshId actor doc.ops) slot none }

/-- The object that was found, or a new one. -/
def objectOrNew (slot : Slot π) (value : Value δ) : Option ℕ → BranchDoc π δ τ σ × ℕ
  | some object => (doc, object)
  | none => doc.putObject actor slot value

/-- The object of this type that a slot shows. -/
def getTyped (slot : Slot π) (type : Value δ) : Option ℕ :=
  match doc.get slot with
  | some (value, id) => if value = type then some id else none
  | none => none

variable (nested : Nested τ σ ω ι)

def updateText (object : ℕ) (content : List Char) : BranchDoc π δ τ σ :=
  { doc with
    texts := Function.update doc.texts object (nested.updateText (doc.texts object) content) }

/-- `autosurgeon::reconcile_prop`: into the map that is there, or into a new one. -/
def reconcileProp (slot : Slot π) (scene : ω) : BranchDoc π δ τ σ :=
  let (doc, object) := doc.objectOrNew actor slot .map (doc.getTyped slot .map)
  { doc with
    scenes := Function.update doc.scenes object (nested.reconcile (doc.scenes object) scene) }

def changeTypeOf (found : Option ℕ) : ChangeType :=
  if found.isSome then .modified else .created

/-- One round of the loop of `commit_entries`. -/
def commitEntry : CommitEntry π δ ω ι → BranchDoc π δ τ σ × ChangedFile π
  | .binary path handle hash =>
      let changeType := changeTypeOf ((doc.get (.file path)).map Prod.snd)
      let (doc, fileEntry) := doc.putObject actor (.file path) .map
      let doc := doc.put actor (.field fileEntry .url) (.str (nested.automergeUrl handle))
      let doc := doc.put actor (.field fileEntry .hash) (.bytes hash)
      (doc, ⟨path, changeType⟩)
  | .text path content hash =>
      let found := doc.getTyped (.file path) .map
      let (doc, fileEntry) := doc.objectOrNew actor (.file path) .map found
      let doc := doc.delete actor (.field fileEntry .url)
      let doc := doc.delete actor (.field fileEntry .structuredContent)
      let (doc, contentKey) := doc.objectOrNew actor (.field fileEntry .content) .text
        (doc.getTyped (.field fileEntry .content) .text)
      let doc := doc.updateText nested contentKey content
      let doc := doc.put actor (.field fileEntry .hash) (.bytes hash)
      (doc, ⟨path, changeTypeOf found⟩)
  | .scene path scene hash =>
      let changeType := changeTypeOf ((doc.get (.file path)).map Prod.snd)
      let (doc, sceneFile) := doc.objectOrNew actor (.file path) .map (doc.getObjId (.file path))
      let doc := doc.reconcileProp actor nested (.field sceneFile .structuredContent) scene
      let doc := doc.put actor (.field sceneFile .hash) (.bytes hash)
      (doc, ⟨path, changeType⟩)
  | .delete path => (doc.delete actor (.file path), ⟨path, .deleted⟩)

/-- `commit_entries`. -/
def commitEntries (doc : BranchDoc π δ τ σ) :
    List (CommitEntry π δ ω ι) → BranchDoc π δ τ σ × List (ChangedFile π)
  | [] => (doc, [])
  | entry :: entries =>
      let (doc, change) := doc.commitEntry actor nested entry
      let (doc, changes) := commitEntries doc entries
      (doc, change :: changes)

end Write

/-- `merge`. -/
def merge [DecidableEq π] [DecidableEq δ] [Max τ] [Max σ] (doc other : BranchDoc π δ τ σ) :
    BranchDoc π δ τ σ :=
  ⟨doc.ops ∪ other.ops, fun object => doc.texts object ⊔ other.texts object,
    fun object => doc.scenes object ⊔ other.scenes object⟩

end BranchDoc

/-! ## Clients -/

inductive DocAction (π : Type u₅) (δ : Type u₆) (ω : Type u₃) (ι : Type u₄) (actors : ℕ)
  | commit (client : Fin actors) (entries : List (CommitEntry π δ ω ι))
  /-- One client receives what another one has. -/
  | merge (into source : Fin actors)

/-- Clients that start from the branch document without files, commit to their own copies
and merge those of others. -/
def docSystem [DecidableEq π] [DecidableEq δ] [Max τ] [Max σ] (nested : Nested τ σ ω ι)
    (actors : ℕ) : System (Fin actors → BranchDoc π δ τ σ) (DocAction π δ ω ι actors) where
  start docs := ∀ client, docs client = nested.emptyDoc
  step docs
    | .commit client entries =>
        some (Function.update docs client ((docs client).commitEntries client nested entries).1)
    | .merge into source => some (Function.update docs into ((docs into).merge (docs source)))

end Backstitch
