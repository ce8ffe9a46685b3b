/-
# Hash indexes and file contents

The hash index of a document takes the stored hash of an entry that has just one; otherwise
it hydrates the entry and hashes what it finds.  A hash that was missing altogether is then
put into the document, at the tip of the branch and not at the ref that was asked for.

Linked documents are looked up in a table, from which some may be missing.
-/

import Backstitch.Document.DocClients

namespace Backstitch

universe u₁ u₂ u₃ u₄ u₅ u₆

/-- `FileContent`. -/
inductive FileContent (ω : Type u₃)
  | string (text : List Char)
  | binary (bytes : List UInt8)
  | scene (scene : ω)
  deriving DecidableEq

/-- What a document is read with. -/
structure DocEnv (τ : Type u₁) (σ : Type u₂) (ω : Type u₃) (ι : Type u₄) (π : Type u₅)
    (δ : Type u₆) extends Nested τ σ ω ι where
  /-- `FileContent::to_hash`. -/
  toHash : FileContent ω → δ
  shouldIgnore : π → Bool
  /-- `get_linked_file`. -/
  linkedFile : ι → Option (FileContent ω)

variable {τ : Type u₁} {σ : Type u₂} {ω : Type u₃} {ι : Type u₄} {π : Type u₅} {δ : Type u₆}

namespace DocEnv

variable (env : DocEnv τ σ ω ι π δ)

/-- The content that hydration comes to, with linked documents followed. -/
def fileContent : Hydrated ω ι → Option (FileContent ω)
  | .text text => some (.string text)
  | .scene scene => some (.scene scene)
  | .linked id => env.linkedFile id
  | .error | .panic => none

end DocEnv

namespace BranchDoc

section Read

variable [DecidableEq π] (env : DocEnv τ σ ω ι π δ) (doc : BranchDoc π δ τ σ)

/-- The stored hash of an entry that has just one. -/
def storedHash (path : π) : Option δ :=
  match OpSet.only (doc.hashesAt path) with
  | some (.bytes hash) => some hash
  | _ => none

/-- `get_files_at_ref`: the content of one file, if it is found. -/
def getFileAtRef (path : π) : Option (FileContent ω) :=
  (doc.contentAt env.toNested path).bind env.fileContent

/-- `get_hash_index`. -/
def getHashIndex (path : π) : Option δ :=
  if env.shouldIgnore path then none
  else
    match doc.storedHash path with
    | some hash => some hash
    | none => (doc.getFileAtRef env path).map env.toHash

/-- A scene that cannot be hydrated. -/
def panicsAt (path : π) : Bool :=
  match doc.contentAt env.toNested path with
  | some .panic => true
  | _ => false

/-- `get_hash_index` hydrates a path whose hash it does not take from the document. -/
def indexPanicsAt (path : π) : Bool :=
  (doc.storedHash path).isNone && doc.panicsAt env path

/-- A hash that is missing, or no hash, is computed to be put into the document; conflicting
hashes are left alone. -/
def shouldReinsert (path : π) : Bool :=
  (doc.storedHash path).isNone && decide ((doc.hashesAt path).card ≤ 1)

end Read

/-- What `get_hash_index` at `ref` does to the tip of the branch, path after path. -/
def reinsertHashes [DecidableEq π] [DecidableEq δ] {actors : ℕ} (actor : Fin actors)
    (env : DocEnv τ σ ω ι π δ) (ref tip : BranchDoc π δ τ σ) : List π → BranchDoc π δ τ σ
  | [] => tip
  | path :: paths =>
      match ref.getObjId (.file path), ref.getHashIndex env path with
      | some entry, some hash =>
          if ref.shouldReinsert path then
            reinsertHashes actor env ref (tip.put actor (.field entry .hash) (.bytes hash)) paths
          else reinsertHashes actor env ref tip paths
      | _, _ => reinsertHashes actor env ref tip paths

theorem known_of_getObjId [DecidableEq π] {doc : BranchDoc π δ τ σ} (hvalid : doc.Valid)
    {path : π} {entry : ℕ} (hentry : doc.getObjId (.file path) = some entry) :
    doc.Known entry := by
  rw [getObjId_file hvalid] at hentry
  obtain ⟨⟨value, id⟩, hget, rfl⟩ := Option.map_eq_some_iff.mp hentry
  exact known_of_get_file hvalid hget

/-- Hashes that are put back leave the document valid. -/
theorem Valid.reinsertHashes [DecidableEq π] [DecidableEq δ] {actors : ℕ} (actor : Fin actors)
    (env : DocEnv τ σ ω ι π δ) {ref tip : BranchDoc π δ τ σ} (href : ref.Valid)
    (htip : tip.Valid) (hsubset : ref.ops ⊆ tip.ops) (paths : List π) :
    (reinsertHashes actor env ref tip paths).Valid := by
  induction paths generalizing tip with
  | nil => exact htip
  | cons path paths ih =>
      rw [BranchDoc.reinsertHashes]
      split
      · rename_i entry hash hentry _
        split
        · rw [getObjId_file href] at hentry
          obtain ⟨⟨value, id⟩, hget, hid⟩ := Option.map_eq_some_iff.mp hentry
          obtain ⟨made, hmade, hwhere⟩ : ref.Known entry := hid ▸ known_of_get_file href hget
          have hknown : tip.Known entry := ⟨made, hsubset hmade, hwhere⟩
          have hput : Changes tip (tip.put actor (.field entry .hash) (.bytes hash))
              {.field entry .hash} := htip.put hknown
          exact ih hput.valid (hsubset.trans hput.subset)
        · exact ih htip hsubset
      · exact ih htip hsubset

theorem written_reinsertHashes [DecidableEq π] [DecidableEq δ] {actors : ℕ} (actor : Fin actors)
    (env : DocEnv τ σ ω ι π δ) {start : OpSet (Slot π) (Value δ)} {ref tip : BranchDoc π δ τ σ}
    (hwritten : OpSet.WrittenBy actor (fun _ _ _ => True) start tip.ops) (paths : List π) :
    OpSet.WrittenBy actor (fun _ _ _ => True) start
      (reinsertHashes actor env ref tip paths).ops := by
  induction paths generalizing tip with
  | nil => exact hwritten
  | cons path paths ih =>
      rw [BranchDoc.reinsertHashes]
      split
      · split
        · exact ih (written_put actor hwritten trivial)
        · exact ih hwritten
      · exact ih hwritten

section Index

variable [DecidableEq π] {env : DocEnv τ σ ω ι π δ} {doc doc' : BranchDoc π δ τ σ} {path : π}

/-- What a path reads decides its hash. -/
theorem getHashIndex_congr
    (hcontent : doc'.contentAt env.toNested path = doc.contentAt env.toNested path)
    (hhashes : doc'.hashesAt path = doc.hashesAt path) :
    doc'.getHashIndex env path = doc.getHashIndex env path := by
  rw [getHashIndex, getHashIndex, storedHash, storedHash, getFileAtRef, getFileAtRef, hcontent,
    hhashes]

/-- A single hash is the one in the index. -/
theorem getHashIndex_of_hashesAt {hash : δ} (hhashes : doc.hashesAt path = {.bytes hash})
    (hvisible : env.shouldIgnore path = false) : doc.getHashIndex env path = some hash := by
  have hstored : doc.storedHash path = some hash := by
    rw [storedHash, hhashes, OpSet.only_eq_some_iff.mpr rfl]
  rw [getHashIndex, hvisible, hstored]
  rfl

/-- A path that is not there is not in the index. -/
theorem getHashIndex_of_absent (hcontent : doc.contentAt env.toNested path = none)
    (hhashes : doc.hashesAt path = 0) : doc.getHashIndex env path = none := by
  have hstored : doc.storedHash path = none := by
    rw [storedHash, hhashes]
    rfl
  rw [getHashIndex, hstored, getFileAtRef, hcontent]
  split <;> rfl

/-- What is in the index is not ignored. -/
theorem shouldIgnore_of_getHashIndex {hash : δ} (hindex : doc.getHashIndex env path = some hash) :
    env.shouldIgnore path = false := by
  rw [getHashIndex] at hindex
  split at hindex
  · nomatch hindex
  · rename_i hvisible
    exact Bool.eq_false_of_not_eq_true hvisible

end Index

end BranchDoc

/-! ## Hashes that are sizes -/

/-- Texts and scenes of which the last one written is read, without linked documents; a
content is hashed to its size. -/
def hashedBySize : DocEnv (ℕ ×ₗ List Char) (ℕ ×ₗ ℕ) ℕ ℕ (List ℕ) ℕ where
  toNested := lastWritten
  toHash
    | .string text => text.length
    | .binary bytes => bytes.length
    | .scene scene => scene
  shouldIgnore _ := false
  linkedFile _ := none

/-- Texts at path `[0]` without a hash, as they were written before there were hashes. -/
def unhashedTexts (texts : List (List Char)) : BranchDoc (List ℕ) ℕ (ℕ ×ₗ List Char) (ℕ ×ₗ ℕ) :=
  let (doc, fileEntry) := lastWritten.emptyDoc.putObject (0 : Fin 1) (.file [0]) .map
  let (doc, content) := doc.putObject (0 : Fin 1) (.field fileEntry .content) .text
  texts.foldl (fun doc text => doc.updateText lastWritten content text) doc

theorem unhashedTexts_valid (texts : List (List Char)) : (unhashedTexts texts).Valid := by
  have hfold : ∀ doc : BranchDoc (List ℕ) ℕ (ℕ ×ₗ List Char) (ℕ ×ₗ ℕ), doc.Valid →
      ∀ content, (texts.foldl (fun doc text => doc.updateText lastWritten content text)
        doc).Valid := by
    induction texts with
    | nil => exact fun _ hvalid _ => hvalid
    | cons text texts ih =>
        exact fun doc hvalid content => ih (doc.updateText lastWritten content text)
          ⟨hvalid.orderly, hvalid.fits⟩ content
  let empty : BranchDoc (List ℕ) ℕ (ℕ ×ₗ List Char) (ℕ ×ₗ ℕ) := lastWritten.emptyDoc
  let entry := empty.putObject (0 : Fin 1) (.file [0]) .map
  have hfits : empty.Fits (.file [0]) (some .map) := .inr rfl
  have hentry : entry.1.Valid := ((emptyDoc_valid lastWritten).putObject hfits).valid
  have hknown : entry.1.Fits (.field entry.2 .content) (some .text) :=
    ⟨_, OpSet.mem_write_iff.mpr (.inl rfl), rfl, [0], rfl⟩
  exact hfold _ (hentry.putObject hknown).valid _

end Backstitch
