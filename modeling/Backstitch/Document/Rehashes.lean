/-
# What a commit does to each entry

A commit of hashed files, and a hash that is put back, either leaves an entry alone or
leave it with one new hash, that of what the entry then holds.  Whatever else is new in the
document lies in the entries that were committed.
-/

import Backstitch.Document.HashIndex

namespace Backstitch

universe u₁ u₂ u₃ u₄ u₅ u₆

variable {τ : Type u₁} {σ : Type u₂} {ω : Type u₃} {ι : Type u₄} {π : Type u₅} {δ : Type u₆}

namespace BranchDoc

/-! ## The content of an entry -/

section Entry

variable [DecidableEq π] (env : DocEnv τ σ ω ι π δ) {doc doc' : BranchDoc π δ τ σ} {path : π}
  {entry : ℕ}

/-- What hydration of an entry comes to at the path that shows it. -/
def hydrateEntry (nested : Nested τ σ ω ι) (doc : BranchDoc π δ τ σ) (entry : ℕ) :
    Hydrated ω ι :=
  match doc.get (.field entry .structuredContent) with
  | some (.map, id) =>
      match nested.hydrate (doc.scenes id) with
      | some scene => .scene scene
      | none => .panic
  | some _ => .panic
  | none =>
      match doc.get (.field entry .content) with
      | some (.text, id) => .text (nested.textAt (doc.texts id))
      | some (.str text, _) => .text text
      | _ =>
          match (doc.getString (.field entry .url)).bind nested.parseAutomergeUrl with
          | some id => .linked id
          | none => .error

/-- The content of an entry, with linked documents followed. -/
def entryContent (doc : BranchDoc π δ τ σ) (entry : ℕ) : Option (FileContent ω) :=
  env.fileContent (doc.hydrateEntry env.toNested entry)

theorem hydrateContentAt_eq (nested : Nested τ σ ω ι)
    (hget : doc.get (.file path) = some (.map, entry)) :
    doc.hydrateContentAt nested entry path = doc.hydrateEntry nested entry := by
  have hentry : doc.getObjId (.file path) = some entry := by rw [getObjId, hget]
  rw [hydrateContentAt, hydrateEntry]
  cases hscene : doc.get (.field entry .structuredContent) with
  | none => rfl
  | some found =>
      obtain ⟨value, id⟩ := found
      simp only [hydrateSceneAt, hentry, hscene]
      cases value <;> rfl

theorem getFileAtRef_eq (hget : doc.get (.file path) = some (.map, entry)) :
    doc.getFileAtRef env path = doc.entryContent env entry := by
  rw [getFileAtRef, contentAt, hget]
  exact congrArg env.fileContent (hydrateContentAt_eq env.toNested hget)

/-- The keys of an entry that say what it holds decide how it hydrates. -/
theorem hydrateEntry_congr (nested : Nested τ σ ω ι) (hvalid : doc.Valid)
    (hlive : ∀ key ≠ FieldKey.hash,
      doc'.ops.live (.field entry key) = doc.ops.live (.field entry key))
    (hobjects : ∀ key ≠ FieldKey.hash, ∀ op ∈ doc.ops.live (.field entry key),
      doc'.texts op.id = doc.texts op.id ∧ doc'.scenes op.id = doc.scenes op.id) :
    doc'.hydrateEntry nested entry = doc.hydrateEntry nested entry := by
  have hget : ∀ key ≠ FieldKey.hash, doc'.get (.field entry key) = doc.get (.field entry key) := by
    intro key hkey
    rw [get, get, OpSet.winner_congr (hlive key hkey)]
  have hobject : ∀ key ≠ FieldKey.hash, ∀ value id,
      doc.get (.field entry key) = some (value, id) →
      doc'.texts id = doc.texts id ∧ doc'.scenes id = doc.scenes id := by
    intro key hkey value id hshown
    obtain ⟨op, hwins, -, rfl⟩ := (get_eq_some_iff hvalid).mp hshown
    exact hobjects key hkey op hwins.1
  simp only [hydrateEntry, getString, hget .structuredContent (by decide), hget .content (by decide),
    hget .url (by decide)]
  cases hscene : doc.get (.field entry .structuredContent) with
  | some found =>
      obtain ⟨value, id⟩ := found
      cases value <;> simp only [(hobject .structuredContent (by decide) _ id hscene).2]
  | none =>
      cases hcontent : doc.get (.field entry .content) with
      | none => rfl
      | some found =>
          obtain ⟨value, id⟩ := found
          cases value <;> simp only [(hobject .content (by decide) _ id hcontent).1]

/-- If an entry has just one hash, it is that of what the entry holds. -/
def HashTrue (doc : BranchDoc π δ τ σ) (entry : ℕ) : Prop :=
  ∀ hash content, doc.getAll (.field entry .hash) = {.bytes hash} →
    doc.entryContent env entry = some content → env.toHash content = hash

/-- An entry that nothing is new in. -/
structure Untouched (doc doc' : BranchDoc π δ τ σ) (entry : ℕ) : Prop where
  known : ∀ key, doc'.ops.KnownAt doc.ops (.field entry key)
  objects : ∀ key, ∀ op ∈ doc.ops.live (.field entry key),
    doc'.texts op.id = doc.texts op.id ∧ doc'.scenes op.id = doc.scenes op.id

theorem Untouched.refl : Untouched doc doc entry :=
  ⟨fun _ _ hop _ => hop, fun _ _ _ => ⟨rfl, rfl⟩⟩

namespace Untouched

theorem live (huntouched : Untouched doc doc' entry) (hsubset : doc.ops ⊆ doc'.ops)
    (key : FieldKey) [DecidableEq δ] :
    doc'.ops.live (.field entry key) = doc.ops.live (.field entry key) :=
  OpSet.live_eq_of_subset hsubset (huntouched.known key)

theorem trans [DecidableEq δ] {doc'' : BranchDoc π δ τ σ} (hfirst : Untouched doc doc' entry)
    (hsecond : Untouched doc' doc'' entry) (hsubset : doc.ops ⊆ doc'.ops) :
    Untouched doc doc'' entry where
  known key op hop hwhere := hfirst.known key op (hsecond.known key op hop hwhere) hwhere
  objects key op hop := by
    obtain ⟨htext, hscene⟩ := hfirst.objects key op hop
    rw [← hfirst.live hsubset] at hop
    obtain ⟨htext', hscene'⟩ := hsecond.objects key op hop
    exact ⟨htext'.trans htext, hscene'.trans hscene⟩

/-- An entry that nothing is new in keeps a true hash. -/
theorem hashTrue [DecidableEq δ] (huntouched : Untouched doc doc' entry) (hvalid : doc.Valid)
    (hsubset : doc.ops ⊆ doc'.ops) (htrue : HashTrue env doc entry) :
    HashTrue env doc' entry := by
  intro hash content hhash hcontent
  rw [getAll, huntouched.live hsubset, ← getAll] at hhash
  rw [entryContent, hydrateEntry_congr env.toNested hvalid
    (fun key _ => huntouched.live hsubset key) fun key _ => huntouched.objects key] at hcontent
  exact htrue hash content hhash hcontent

end Untouched

end Entry

/-! ## What is new -/

section Adds

variable [DecidableEq π] [DecidableEq δ] {actors : ℕ} {actor : Fin actors}
  {doc doc' doc'' : BranchDoc π δ τ σ} {slots more : Set (Slot π)} {slot : Slot π}

/-- A hash is never deleted, and an operation overwrites what is there. -/
def Grounded (doc : BranchDoc π δ τ σ) (op : Op (Slot π) (Value δ)) : Prop :=
  (∀ entry, op.location = .field entry .hash → op.value ≠ none) ∧
    ∀ id ∈ op.overwrites, ∃ other ∈ doc.ops, other.location = op.location ∧ other.id = id

/-- Everything new lies in these slots, and only objects that are there are written to. -/
structure Adds (doc doc' : BranchDoc π δ τ σ) (slots : Set (Slot π)) : Prop where
  subset : doc.ops ⊆ doc'.ops
  new : ∀ op ∈ doc'.ops, op ∈ doc.ops ∨ op.location ∈ slots ∧ doc'.Grounded op
  objects : ∀ id, (∀ op ∈ doc'.ops, op.id ≠ id) →
    doc'.texts id = doc.texts id ∧ doc'.scenes id = doc.scenes id

omit [DecidableEq π] [DecidableEq δ] in
theorem Grounded.mono {op : Op (Slot π) (Value δ)} (hgrounded : doc.Grounded op)
    (hsubset : doc.ops ⊆ doc'.ops) : doc'.Grounded op :=
  ⟨hgrounded.1, fun id hid => (hgrounded.2 id hid).imp fun _ h => h.imp_left fun hmem =>
    hsubset hmem⟩

namespace Adds

omit [DecidableEq π] [DecidableEq δ] in
theorem refl : Adds doc doc slots :=
  ⟨Finset.Subset.refl _, fun _ => .inl, fun _ _ => ⟨rfl, rfl⟩⟩

omit [DecidableEq π] [DecidableEq δ] in
theorem mono (hadds : Adds doc doc' slots) (hslots : slots ⊆ more) : Adds doc doc' more :=
  ⟨hadds.subset, fun op hop => (hadds.new op hop).imp_right fun h => h.imp_left fun hmem =>
    hslots hmem, hadds.objects⟩

omit [DecidableEq π] [DecidableEq δ] in
theorem trans (hfirst : Adds doc doc' slots) (hsecond : Adds doc' doc'' slots) :
    Adds doc doc'' slots where
  subset := hfirst.subset.trans hsecond.subset
  new := by
    intro op hop
    rcases hsecond.new op hop with hop | hnew
    · exact (hfirst.new op hop).imp_right fun h =>
        h.imp_right fun hgrounded => hgrounded.mono hsecond.subset
    · exact .inr hnew
  objects := by
    intro id hid
    obtain ⟨htext, hscene⟩ := hsecond.objects id hid
    obtain ⟨htext', hscene'⟩ := hfirst.objects id fun op hop => hid op (hsecond.subset hop)
    exact ⟨htext.trans htext', hscene.trans hscene'⟩

/-- One operation, which is no deletion of a hash. -/
theorem write {value : Option (Value δ)}
    (hvalue : ∀ entry, slot = .field entry .hash → value ≠ none) :
    Adds doc { doc with
      ops := doc.ops.write (OpSet.freshId actor doc.ops) slot value } {slot} where
  subset := OpSet.subset_write
  new := by
    intro op hop
    rcases OpSet.mem_write_iff.mp hop with rfl | hop
    · refine .inr ⟨rfl, hvalue, fun id hid => ?_⟩
      obtain ⟨other, hother, rfl⟩ := Finset.mem_image.mp hid
      exact ⟨other, OpSet.subset_write (OpSet.mem_of_mem_live hother),
        OpSet.location_of_mem_live hother, rfl⟩
    · exact .inl hop
  objects _ _ := ⟨rfl, rfl⟩

theorem put (value : Value δ) : Adds doc (doc.put actor slot value) {slot} := by
  rw [BranchDoc.put]
  split
  · exact .refl
  · exact .write fun _ _ => Option.some_ne_none value

theorem putObject (value : Value δ) : Adds doc (doc.putObject actor slot value).1 {slot} :=
  .write fun _ _ => Option.some_ne_none value

theorem objectOrNew (value : Value δ) (found : Option ℕ) :
    Adds doc (doc.objectOrNew actor slot value found).1 {slot} := by
  cases found with
  | some object => exact .refl
  | none => exact .putObject value

theorem delete (hslot : ∀ entry, slot ≠ .field entry .hash) :
    Adds doc (doc.delete actor slot) {slot} := by
  rw [BranchDoc.delete]
  split
  · exact .refl
  · exact .write fun entry heq => absurd heq (hslot entry)

omit [DecidableEq δ] in
/-- An object that a slot shows is written to. -/
theorem inObject (hvalid : doc.Valid) {value : Value δ} {object : ℕ}
    (hget : doc.get slot = some (value, object)) (text : τ) (scene : σ) :
    Adds doc { doc with
      texts := Function.update doc.texts object text
      scenes := Function.update doc.scenes object scene } slots where
  subset := Finset.Subset.refl _
  new _ := .inl
  objects := by
    intro id hid
    obtain ⟨op, hwins, -, heq⟩ := (get_eq_some_iff hvalid).mp hget
    have hne : id ≠ object := fun h => hid op (OpSet.mem_of_mem_live hwins.1) (heq.trans h.symm)
    exact ⟨Function.update_of_ne hne _ _, Function.update_of_ne hne _ _⟩

/-- Where nothing is new, the same is live. -/
theorem live (hadds : Adds doc doc' slots) (hslot : slot ∉ slots) :
    doc'.ops.live slot = doc.ops.live slot :=
  OpSet.live_eq_of_subset hadds.subset fun op hop hwhere =>
    (hadds.new op hop).resolve_right fun hnew => hslot (hwhere ▸ hnew.1)

omit [DecidableEq δ] in
/-- What changes no more than some slots leaves the other entries alone. -/
theorem untouched (hadds : Adds doc doc' slots) (hchanges : Changes doc doc' slots) {entry : ℕ}
    (hentry : ∀ key, .field entry key ∉ slots) : Untouched doc doc' entry where
  known key op hop hwhere :=
    (hadds.new op hop).resolve_right fun hnew => hentry key (hwhere ▸ hnew.1)
  objects key := hchanges.objects _ (hentry key)

end Adds

end Adds

/-! ## New hashes -/

section Rehashes

variable [DecidableEq π] [DecidableEq δ] (env : DocEnv τ σ ω ι π δ)
  {doc doc' doc'' : BranchDoc π δ τ σ} {path : π} {entry : ℕ}

/-- The entry has one new hash, that of what it holds. -/
def Rehashed (doc doc' : BranchDoc π δ τ σ) (entry : ℕ) : Prop :=
  (∃ op ∉ doc.ops, doc'.ops.live (.field entry .hash) = {op}) ∧ HashTrue env doc' entry

variable {env}

/-- A new hash is all that is live, unless it is there already. -/
theorem live_put_hash {actors : ℕ} (actor : Fin actors) (hvalid : doc.Valid) {hash : δ}
    (hnew : doc.getAll (.field entry .hash) ≠ {.bytes hash}) :
    ∃ op ∉ doc.ops,
      (doc.put actor (.field entry .hash) (.bytes hash)).ops.live (.field entry .hash) = {op} := by
  rw [put, if_neg hnew]
  exact ⟨_, fun hmem => absurd (OpSet.lt_freshId actor hmem) (lt_irrefl _),
    live_write hvalid (.bytes hash)⟩

omit [DecidableEq δ] in
/-- The hash of what is read at a path is the true one of its entry. -/
theorem hashTrue_of_path (hget : doc.get (.file path) = some (.map, entry)) {hash : δ}
    (hhash : doc.hashesAt path = {.bytes hash})
    (hcontent : ∀ content, doc.getFileAtRef env path = some content → env.toHash content = hash) :
    HashTrue env doc entry := by
  intro other content hother hread
  rw [hashesAt, hget] at hhash
  have heq : hash = other := Value.bytes.inj (Multiset.singleton_inj.mp (hhash.symm.trans hother))
  rw [← heq]
  exact hcontent content (by rw [getFileAtRef_eq env hget, hread])

variable (env) [SemilatticeSup τ] [SemilatticeSup σ]

/-- Every entry is left alone or has a new hash, the right one. -/
structure Rehashes (doc doc' : BranchDoc π δ τ σ) : Prop where
  valid : doc'.Valid
  extends' : doc.Extends doc'
  new : ∀ op ∈ doc'.ops, op ∈ doc.ops ∨ doc'.Grounded op
  objects : ∀ id, (∀ op ∈ doc'.ops, op.id ≠ id) →
    doc'.texts id = doc.texts id ∧ doc'.scenes id = doc.scenes id
  entries : ∀ entry, Untouched doc doc' entry ∨ Rehashed env doc doc' entry

omit [DecidableEq δ] in
theorem Rehashes.refl (hvalid : doc.Valid) : Rehashes env doc doc :=
  ⟨hvalid, ⟨Finset.Subset.refl _, fun _ => le_rfl, fun _ => le_rfl⟩, fun _ => .inl,
    fun _ _ => ⟨rfl, rfl⟩, fun _ => .inl .refl⟩

variable {env}

theorem Rehashes.trans (hfirst : Rehashes env doc doc') (hsecond : Rehashes env doc' doc'') :
    Rehashes env doc doc'' where
  valid := hsecond.valid
  extends' := hfirst.extends'.trans hsecond.extends'
  new op hop := by
    rcases hsecond.new op hop with hop | hnew
    · exact (hfirst.new op hop).imp_right fun hgrounded => hgrounded.mono hsecond.extends'.1
    · exact .inr hnew
  objects id hid := by
    obtain ⟨htext, hscene⟩ := hsecond.objects id hid
    obtain ⟨htext', hscene'⟩ := hfirst.objects id fun op hop => hid op (hsecond.extends'.1 hop)
    exact ⟨htext.trans htext', hscene.trans hscene'⟩
  entries entry := by
    rcases hsecond.entries entry with hsame | ⟨⟨op, hop, hlive⟩, htrue⟩
    · rcases hfirst.entries entry with hsame' | ⟨⟨op, hop, hlive⟩, htrue⟩
      · exact .inl (hsame'.trans hsame hfirst.extends'.1)
      · refine .inr ⟨⟨op, hop, ?_⟩, hsame.hashTrue env hfirst.valid hsecond.extends'.1 htrue⟩
        rw [hsame.live hsecond.extends'.1, hlive]
    · exact .inr ⟨⟨op, fun hmem => hop (hfirst.extends'.1 hmem), hlive⟩, htrue⟩

end Rehashes

/-! ## Commits -/

section Commits

variable [DecidableEq π] [DecidableEq δ] {actors : ℕ} (actor : Fin actors)
  {env : DocEnv τ σ ω ι π δ} {doc made before : BranchDoc π δ τ σ} {path : π} {entry : ℕ}

/-- The keys of an entry that say what it holds. -/
def contentSlots (entry : ℕ) : Set (Slot π) :=
  {slot | ∃ key ≠ FieldKey.hash, slot = .field entry key}

omit [DecidableEq π] in
theorem singleton_subset_contentSlots (entry : ℕ) {key : FieldKey} (hkey : key ≠ .hash) :
    ({.field entry key} : Set (Slot π)) ⊆ contentSlots entry :=
  fun _ hslot => ⟨key, hkey, hslot⟩

omit [DecidableEq π] in
theorem contentSlots_subset (entry : ℕ) :
    (contentSlots entry : Set (Slot π)) ⊆ entrySlots entry :=
  fun _ ⟨key, _, heq⟩ => ⟨key, heq⟩

/-- The entry at a path, found or made. -/
def entryAt (doc : BranchDoc π δ τ σ) (path : π) : BranchDoc π δ τ σ × ℕ :=
  doc.objectOrNew actor (.file path) .map ((doc.get (.file path)).map Prod.snd)

/-- A text in an entry, without its hash. -/
def textInEntry (nested : Nested τ σ ω ι) (doc : BranchDoc π δ τ σ) (entry : ℕ)
    (content : List Char) : BranchDoc π δ τ σ :=
  let cleared := (doc.delete actor (.field entry .url)).delete actor
    (.field entry .structuredContent)
  let found := cleared.objectOrNew actor (.field entry .content) .text
    (cleared.getTyped (.field entry .content) .text)
  found.1.updateText nested found.2 content

/-- A scene in an entry, without its hash. -/
def sceneInEntry (nested : Nested τ σ ω ι) (doc : BranchDoc π δ τ σ) (entry : ℕ) (scene : ω) :
    BranchDoc π δ τ σ :=
  doc.reconcileProp actor nested (.field entry .structuredContent) scene

theorem commitEntry_text (nested : Nested τ σ ω ι) (hvalid : doc.Valid) (path : π)
    (content : List Char) (hash : δ) :
    (doc.commitEntry actor nested (.text path content hash)).1 =
      ((doc.entryAt actor path).1.textInEntry actor nested (doc.entryAt actor path).2
        content).put actor (.field (doc.entryAt actor path).2 .hash) (.bytes hash) := by
  rw [commitEntry, getTyped_file hvalid]
  rfl

theorem commitEntry_scene (nested : Nested τ σ ω ι) (hvalid : doc.Valid) (path : π)
    (scene : ω) (hash : δ) :
    (doc.commitEntry actor nested (.scene path scene hash)).1 =
      ((doc.entryAt actor path).1.sceneInEntry actor nested (doc.entryAt actor path).2
        scene).put actor (.field (doc.entryAt actor path).2 .hash) (.bytes hash) := by
  rw [commitEntry, getObjId_file hvalid]
  rfl

/-- A new entry has no keys. -/
theorem getAll_putObject (hvalid : doc.Valid) (path : π) (key : FieldKey) :
    (doc.putObject actor (.file path) .map).1.getAll
      (.field (doc.putObject actor (.file path) .map).2 key) = 0 := by
  have hchanges : Changes doc (doc.putObject actor (.file path) .map).1 {.file path} :=
    hvalid.putObject (.inr rfl)
  rw [hchanges.getAll (field_not_mem_file _ key path), getAll,
    live_eq_empty_of_not_known hvalid]
  · rfl
  · rintro ⟨op, hop, hid, -⟩
    exact absurd hid (Nat.ne_of_lt (OpSet.lt_freshId actor hop))

/-- An entry that was found has the hashes of its path, and a new one has none. -/
theorem getAll_entryAt (hvalid : doc.Valid) (path : π) :
    (doc.entryAt actor path).1.getAll (.field (doc.entryAt actor path).2 .hash) =
      doc.hashesAt path := by
  rw [entryAt, hashesAt]
  cases hget : doc.get (.file path) with
  | some shown =>
      obtain ⟨value, entry⟩ := shown
      obtain rfl := eq_map_of_get_file hvalid hget
      rfl
  | none => exact getAll_putObject actor hvalid path .hash

theorem changes_entryAt (hvalid : doc.Valid) (path : π) :
    Changes doc (doc.entryAt actor path).1 {.file path} ∧
      Adds doc (doc.entryAt actor path).1 {.file path} ∧
      (doc.entryAt actor path).1.get (.file path) = some (.map, (doc.entryAt actor path).2) := by
  obtain ⟨hmade, hget⟩ := entry_objectOrNew actor hvalid path
  exact ⟨hmade, .objectOrNew _ _, hget⟩

/-- A text comes into an entry, before its hash. -/
theorem changes_text (nested : Nested τ σ ω ι) (hvalid : doc.Valid) (hknown : doc.Known entry)
    (content : List Char) :
    Changes doc (doc.textInEntry actor nested entry content) (contentSlots entry) ∧
      Adds doc (doc.textInEntry actor nested entry content) (contentSlots entry) := by
  let cleared := (doc.delete actor (.field entry .url)).delete actor
    (.field entry .structuredContent)
  let found := cleared.objectOrNew actor (.field entry .content) .text
    (cleared.getTyped (.field entry .content) .text)
  have hkey : ∀ key ≠ FieldKey.hash,
      ({.field entry key} : Set (Slot π)) ⊆ contentSlots entry :=
    fun _ => singleton_subset_contentSlots entry
  have hurl : Changes doc (doc.delete actor (.field entry .url)) {.field entry .url} :=
    hvalid.delete hknown
  have hcleared : Changes (doc.delete actor (.field entry .url)) cleared
      {.field entry .structuredContent} := hurl.valid.delete (hurl.known hknown)
  have hfits : cleared.Fits (.field entry .content) (some .text) :=
    hcleared.known (hurl.known hknown)
  have hfound : Changes cleared found.1 {.field entry .content} :=
    hcleared.valid.objectOrNew hfits _
  have hshown : found.1.get (.field entry .content) = some (.text, found.2) :=
    get_objectOrNew hcleared.valid fun _ => get_of_getTyped
  have htext : Changes found.1 (found.1.updateText nested found.2 content)
      {.field entry .content} := hfound.valid.updateText nested hshown content
  have hobject : Adds found.1 (found.1.updateText nested found.2 content)
      {.field entry .content} := by
    have h : Adds found.1 _ {.field entry .content} := .inObject hfound.valid hshown
      (nested.updateText (found.1.texts found.2) content) (found.1.scenes found.2)
    rwa [Function.update_eq_self] at h
  constructor
  · exact (hurl.mono (hkey .url nofun)).trans ((hcleared.mono (hkey .structuredContent nofun)).trans
      ((hfound.mono (hkey .content nofun)).trans (htext.mono (hkey .content nofun))))
  · have hurlAdds : Adds doc (doc.delete actor (.field entry .url)) {.field entry .url} :=
      .delete fun _ => nofun
    have hclearedAdds : Adds (doc.delete actor (.field entry .url)) cleared
        {.field entry .structuredContent} := .delete fun _ => nofun
    exact (hurlAdds.mono (hkey .url nofun)).trans
      ((hclearedAdds.mono (hkey .structuredContent nofun)).trans
        (((Adds.objectOrNew _ _).mono (hkey .content nofun)).trans
          (hobject.mono (hkey .content nofun))))

/-- A scene comes into an entry, before its hash. -/
theorem changes_scene (nested : Nested τ σ ω ι) (hvalid : doc.Valid) (hknown : doc.Known entry)
    (scene : ω) :
    Changes doc (doc.sceneInEntry actor nested entry scene) (contentSlots entry) ∧
      Adds doc (doc.sceneInEntry actor nested entry scene) (contentSlots entry) := by
  have hkey : ({.field entry .structuredContent} : Set (Slot π)) ⊆ contentSlots entry :=
    singleton_subset_contentSlots entry nofun
  have hfits : doc.Fits (.field entry .structuredContent) (some .map) := hknown
  let found := doc.objectOrNew actor (.field entry .structuredContent) .map
    (doc.getTyped (.field entry .structuredContent) .map)
  have hfound : Changes doc found.1 {.field entry .structuredContent} :=
    hvalid.objectOrNew hfits _
  have hshown : found.1.get (.field entry .structuredContent) = some (.map, found.2) :=
    get_objectOrNew hvalid fun _ => get_of_getTyped
  have hscene := hfound.valid.inObject hshown (found.1.texts found.2)
    (nested.reconcile (found.1.scenes found.2) scene)
  have hobject : Adds found.1 _ {.field entry .structuredContent} :=
    .inObject hfound.valid hshown (found.1.texts found.2)
      (nested.reconcile (found.1.scenes found.2) scene)
  rw [Function.update_eq_self] at hscene hobject
  constructor
  · exact (hfound.mono hkey).trans (hscene.mono hkey)
  · exact ((Adds.objectOrNew _ _).mono hkey).trans (hobject.mono hkey)

variable [SemilatticeSup τ] [SemilatticeSup σ]

/-- An entry is found or made, content comes into it, and then a hash that was not there. -/
theorem Rehashes.of_commit (hmade : Changes doc made {.file path})
    (hmadeAdds : Adds doc made {.file path}) (hget : made.get (.file path) = some (.map, entry))
    (hbefore : Changes made before (contentSlots entry) ∧ Adds made before (contentSlots entry))
    {hash : δ} (hnew : made.getAll (.field entry .hash) ≠ {.bytes hash})
    (hextends : doc.Extends (before.put actor (.field entry .hash) (.bytes hash)))
    (hcontent : ∀ content,
      (before.put actor (.field entry .hash) (.bytes hash)).getFileAtRef env path =
        some content → env.toHash content = hash) :
    Rehashes env doc (before.put actor (.field entry .hash) (.bytes hash)) := by
  let final := before.put actor (.field entry .hash) (.bytes hash)
  have hknown : before.Known entry := hbefore.1.known (known_of_get_file hmade.valid hget)
  have hput : Changes before final {.field entry .hash} := hbefore.1.valid.put hknown
  have hkeys : (contentSlots entry : Set (Slot π)) ⊆ entrySlots entry :=
    contentSlots_subset entry
  have hhashKey : ({.field entry .hash} : Set (Slot π)) ⊆ entrySlots entry :=
    singleton_subset_entrySlots entry .hash
  have hchanges : Changes made final (entrySlots entry) :=
    (hbefore.1.mono hkeys).trans (hput.mono hhashKey)
  have hadds : Adds made final (entrySlots entry) :=
    (hbefore.2.mono hkeys).trans ((Adds.put _).mono hhashKey)
  have hfile : final.get (.file path) = some (.map, entry) := by
    rw [hchanges.get (file_not_mem_entrySlots path entry), hget]
  have hnot : Slot.field entry .hash ∉ (contentSlots entry : Set (Slot π)) :=
    fun hmem => hmem.elim fun _ hboth => hboth.1 (Slot.field.inj hboth.2).2.symm
  have hhashes : final.hashesAt path = {.bytes hash} := by
    rw [hashesAt, hfile]
    exact getAll_put hbefore.1.valid _
  obtain ⟨op, hop, hlive⟩ := live_put_hash actor hbefore.1.valid
    (by rwa [hbefore.1.getAll hnot])
  refine ⟨hchanges.valid, hextends, ?_, ?_, fun other => ?_⟩
  · intro op hop
    rcases hadds.new op hop with hop | hnew
    · exact (hmadeAdds.new op hop).imp_right fun h => h.2.mono hadds.subset
    · exact .inr hnew.2
  · intro id hid
    obtain ⟨htext, hscene⟩ := hadds.objects id hid
    obtain ⟨htext', hscene'⟩ := hmadeAdds.objects id fun op hop => hid op (hadds.subset hop)
    exact ⟨htext.trans htext', hscene.trans hscene'⟩
  · by_cases heq : other = entry
    · subst heq
      exact .inr ⟨⟨op, fun hmem => hop (hbefore.2.subset (hmadeAdds.subset hmem)), hlive⟩,
        hashTrue_of_path hfile hhashes hcontent⟩
    · have hfirst : Untouched doc made other :=
        hmadeAdds.untouched hmade fun key => field_not_mem_file other key path
      have hsecond : Untouched made final other :=
        hadds.untouched hchanges fun key hmem => hmem.elim fun _ h => heq (Slot.field.inj h).1
      exact .inl (hfirst.trans hsecond hmadeAdds.subset)

variable (env)

/-- The hash of an entry is that of its content, as `commit_fs_changes` computes it. -/
def HashedBy : CommitEntry π δ ω ι → Prop
  | .binary _ handle hash =>
      ∀ content, env.linkedFile handle = some content → env.toHash content = hash
  | .text _ content hash => env.toHash (.string content) = hash
  | .scene _ scene hash => env.toHash (.scene scene) = hash
  | .delete _ => True

/-- The path has this text already, so that writing it changes nothing. -/
def HoldsText (nested : Nested τ σ ω ι) (doc : BranchDoc π δ τ σ) (path : π)
    (content : List Char) : Prop :=
  ∃ entry object, doc.get (.file path) = some (.map, entry) ∧
    doc.ops.live (.field entry .url) = ∅ ∧ doc.ops.live (.field entry .structuredContent) = ∅ ∧
    doc.get (.field entry .content) = some (.text, object) ∧
    nested.updateText (doc.texts object) content = doc.texts object

/-- The path has this scene already, so that reconciling it changes nothing. -/
def HoldsScene (nested : Nested τ σ ω ι) (doc : BranchDoc π δ τ σ) (path : π) (scene : ω) :
    Prop :=
  ∃ entry object, doc.get (.file path) = some (.map, entry) ∧
    doc.get (.field entry .structuredContent) = some (.map, object) ∧
    nested.reconcile (doc.scenes object) scene = doc.scenes object

/-- A scene hydrates back, and what comes with the hash that is there already is there
already too. -/
def KeepsHash (nested : Nested τ σ ω ι) (doc : BranchDoc π δ τ σ) :
    CommitEntry π δ ω ι → Prop
  | .text path content hash =>
      doc.hashesAt path = {.bytes hash} → HoldsText nested doc path content
  | .scene path scene hash =>
      (∀ object, nested.hydrate (nested.reconcile object scene) = some scene) ∧
        (doc.hashesAt path = {.bytes hash} → HoldsScene nested doc path scene)
  | .binary _ _ _ | .delete _ => True

variable {env}

omit [SemilatticeSup τ] [SemilatticeSup σ] in
/-- A text that is there already is committed without a change. -/
theorem commitEntry_of_holdsText (nested : Nested τ σ ω ι) {content : List Char} {hash : δ}
    (hhash : doc.hashesAt path = {.bytes hash}) (hholds : HoldsText nested doc path content) :
    (doc.commitEntry actor nested (.text path content hash)).1 = doc := by
  obtain ⟨entry, object, hget, hurl, hstructured, hcontent, htext⟩ := hholds
  rw [hashesAt, hget] at hhash
  have hentry : doc.getTyped (.file path) .map = some entry := by
    rw [getTyped, hget]
    exact if_pos rfl
  have hobject : doc.getTyped (.field entry .content) .text = some object := by
    rw [getTyped, hcontent]
    exact if_pos rfl
  have hdeleteUrl : doc.delete actor (.field entry .url) = doc := if_pos hurl
  have hdeleteScene : doc.delete actor (.field entry .structuredContent) = doc :=
    if_pos hstructured
  have hupdate : doc.updateText nested object content = doc := by
    rw [updateText, htext, Function.update_eq_self]
  have hput : doc.put actor (.field entry .hash) (.bytes hash) = doc := if_pos hhash
  simp only [commitEntry, hentry, objectOrNew, hdeleteUrl, hdeleteScene, hobject, hupdate, hput]

omit [SemilatticeSup τ] [SemilatticeSup σ] in
/-- So is a scene. -/
theorem commitEntry_of_holdsScene (nested : Nested τ σ ω ι) {scene : ω} {hash : δ}
    (hhash : doc.hashesAt path = {.bytes hash}) (hholds : HoldsScene nested doc path scene) :
    (doc.commitEntry actor nested (.scene path scene hash)).1 = doc := by
  obtain ⟨entry, object, hget, hstructured, hscene⟩ := hholds
  rw [hashesAt, hget] at hhash
  have hentry : doc.getObjId (.file path) = some entry := by rw [getObjId, hget]
  have hobject : doc.getTyped (.field entry .structuredContent) .map = some object := by
    rw [getTyped, hstructured]
    exact if_pos rfl
  have hput : doc.put actor (.field entry .hash) (.bytes hash) = doc := if_pos hhash
  simp only [commitEntry, hentry, objectOrNew, reconcileProp, hobject, hscene,
    Function.update_eq_self, hput]

/-- **A commit of one hashed file leaves each entry alone or gives it the right hash.** -/
theorem rehashes_commitEntry (hvalid : doc.Valid) (hgrows : env.Grows)
    {commit : CommitEntry π δ ω ι} (hhashed : HashedBy env commit)
    (hkeeps : doc.KeepsHash env.toNested commit) :
    Rehashes env doc (doc.commitEntry actor env.toNested commit).1 := by
  have hextends := extends_commitEntry actor env.toNested hvalid hgrows commit
  have hread : ∀ {final : BranchDoc π δ τ σ} {hydrated : Hydrated ω ι} {content},
      final.contentAt env.toNested commit.path = some hydrated →
      final.getFileAtRef env commit.path = some content →
      env.fileContent hydrated = some content := by
    intro final hydrated content hcontent hfile
    rwa [getFileAtRef, hcontent] at hfile
  cases commit with
  | binary path handle hash =>
      obtain ⟨hmade, hget, hchanges, hcontent, -⟩ :=
        commitBinary actor env.toNested hvalid path handle hash
      let made := doc.putObject actor (.file path) .map
      have hknown : made.1.Known made.2 := known_of_get_file hmade.valid hget
      have hkey : ({.field made.2 .url} : Set (Slot π)) ⊆ contentSlots made.2 :=
        singleton_subset_contentSlots made.2 (by decide)
      have hlink : Changes made.1 (made.1.put actor (.field made.2 .url)
          (.str (env.automergeUrl handle))) {.field made.2 .url} := hmade.valid.put hknown
      refine .of_commit actor hmade (.putObject _) hget ⟨hlink.mono hkey, (Adds.put _).mono hkey⟩
        ?_ hextends fun content hfile => hhashed content (hread hcontent hfile)
      rw [getAll_putObject actor hvalid path .hash]
      exact (Multiset.singleton_ne_zero _).symm
  | text path content hash =>
      by_cases hsame : doc.hashesAt path = {.bytes hash}
      · rw [commitEntry_of_holdsText actor env.toNested hsame (hkeeps hsame)]
        exact .refl env hvalid
      · obtain ⟨hmade, hadds, hget⟩ := changes_entryAt actor hvalid path
        have hknown : (doc.entryAt actor path).1.Known (doc.entryAt actor path).2 :=
          known_of_get_file hmade.valid hget
        have hcontent := (commitText actor env.toNested hmade.valid hget content hash).2.1
        rw [commitEntry_text actor env.toNested hvalid] at hextends ⊢
        refine .of_commit actor hmade hadds hget
          (changes_text actor env.toNested hmade.valid hknown content)
          (by rwa [getAll_entryAt actor hvalid]) hextends fun found hfile => ?_
        cases hread hcontent hfile
        exact hhashed
  | scene path scene hash =>
      by_cases hsame : doc.hashesAt path = {.bytes hash}
      · rw [commitEntry_of_holdsScene actor env.toNested hsame (hkeeps.2 hsame)]
        exact .refl env hvalid
      · obtain ⟨hmade, hadds, hget⟩ := changes_entryAt actor hvalid path
        have hknown : (doc.entryAt actor path).1.Known (doc.entryAt actor path).2 :=
          known_of_get_file hmade.valid hget
        have hcontent := (commitScene actor env.toNested hmade.valid hget scene hash).2.1 hkeeps.1
        rw [commitEntry_scene actor env.toNested hvalid] at hextends ⊢
        refine .of_commit actor hmade hadds hget
          (changes_scene actor env.toNested hmade.valid hknown scene)
          (by rwa [getAll_entryAt actor hvalid]) hextends fun found hfile => ?_
        cases hread hcontent hfile
        exact hhashed
  | delete path =>
      have hfits : doc.Fits (.file path) none := .inl rfl
      have hchanges : Changes doc (doc.delete actor (.file path)) {.file path} :=
        hvalid.delete hfits
      have hadds : Adds doc (doc.delete actor (.file path)) {.file path} := 
        .delete fun _ hsame => by cases hsame
      exact ⟨hchanges.valid, hextends, fun op hop => (hadds.new op hop).imp_right And.right,
        hadds.objects, fun entry => .inl
          (hadds.untouched hchanges fun key => field_not_mem_file entry key path)⟩

/-- Every entry of a commit keeps the hashes right where it is committed. -/
def KeepsHashes (nested : Nested τ σ ω ι) :
    BranchDoc π δ τ σ → List (CommitEntry π δ ω ι) → Prop
  | _, [] => True
  | doc, commit :: commits =>
      doc.KeepsHash nested commit ∧ KeepsHashes nested (doc.commitEntry actor nested commit).1 commits

/-- So does a commit of many. -/
theorem rehashes_commitEntries (hvalid : doc.Valid) (hgrows : env.Grows)
    {commits : List (CommitEntry π δ ω ι)} (hhashed : ∀ commit ∈ commits, HashedBy env commit)
    (hkeeps : KeepsHashes actor env.toNested doc commits) :
    Rehashes env doc (doc.commitEntries actor env.toNested commits).1 := by
  induction commits generalizing doc with
  | nil => exact .refl env hvalid
  | cons commit commits ih =>
      have hfirst := rehashes_commitEntry actor hvalid hgrows
        (hhashed commit List.mem_cons_self) hkeeps.1
      exact hfirst.trans (ih hfirst.valid
        (fun other hother => hhashed other (List.mem_cons_of_mem _ hother)) hkeeps.2)

end Commits

/-! ## Hashes that are put back -/

section Reinsert

variable [DecidableEq π] [DecidableEq δ] {actors : ℕ} (actor : Fin actors)
  {env : DocEnv τ σ ω ι π δ} {ref tip : BranchDoc π δ τ σ} {entry : ℕ} {hash : δ}

variable (env) in
/-- Every hash that is put back is that of what the tip holds in its entry. -/
def PutsBackTruly (ref tip : BranchDoc π δ τ σ) (paths : List π) : Prop :=
  ∀ path ∈ paths, ∀ entry hash, ref.getObjId (.file path) = some entry →
    ref.getHashIndex env path = some hash → ref.shouldReinsert path = true →
    ∀ content, tip.entryContent env entry = some content → env.toHash content = hash

/-- A hash changes the content of no entry. -/
theorem entryContent_put (htip : tip.Valid) (hknown : tip.Known entry) (other : ℕ) :
    (tip.put actor (.field entry .hash) (.bytes hash)).entryContent env other =
      tip.entryContent env other := by
  have hput : Changes tip (tip.put actor (.field entry .hash) (.bytes hash))
      {.field entry .hash} := htip.put hknown
  have hkey : ∀ key ≠ FieldKey.hash,
      Slot.field other key ∉ ({.field entry .hash} : Set (Slot π)) :=
    fun _ hne heq => hne (Slot.field.inj heq).2
  rw [entryContent, entryContent, hydrateEntry_congr env.toNested htip
    (fun key hne => hput.live _ (hkey key hne)) fun key hne => hput.objects _ (hkey key hne)]

variable [SemilatticeSup τ] [SemilatticeSup σ]

theorem rehashes_put_hash (htip : tip.Valid) (hknown : tip.Known entry)
    (htrue : ∀ content, tip.entryContent env entry = some content → env.toHash content = hash) :
    Rehashes env tip (tip.put actor (.field entry .hash) (.bytes hash)) := by
  by_cases hsame : tip.getAll (.field entry .hash) = {.bytes hash}
  · rw [put, if_pos hsame]
    exact .refl env htip
  have hput : Changes tip (tip.put actor (.field entry .hash) (.bytes hash))
      {.field entry .hash} := htip.put hknown
  have hadds : Adds tip (tip.put actor (.field entry .hash) (.bytes hash))
      {.field entry .hash} := .put _
  have hobjects := objects_put actor tip (.field entry .hash) (.bytes hash)
  refine ⟨hput.valid, ⟨hput.subset, fun object => ?_, fun object => ?_⟩,
    fun op hop => (hadds.new op hop).imp_right And.right, hadds.objects, fun other => ?_⟩
  · rw [hobjects.1]
  · rw [hobjects.2]
  · by_cases heq : other = entry
    · subst heq
      refine .inr ⟨live_put_hash actor htip hsame, fun found content hfound hcontent => ?_⟩
      rw [getAll_put htip] at hfound
      rw [entryContent_put actor htip hknown] at hcontent
      rw [htrue content hcontent]
      exact Value.bytes.inj (Multiset.singleton_inj.mp hfound)
    · exact .inl (hadds.untouched hput fun key h => heq (Slot.field.inj h).1)

/-- **Hashes of what the tip holds are put back rightly.** -/
theorem rehashes_reinsertHashes (href : ref.Valid) (htip : tip.Valid)
    (hsubset : ref.ops ⊆ tip.ops) {paths : List π} (htrue : PutsBackTruly env ref tip paths) :
    Rehashes env tip (reinsertHashes actor env ref tip paths) := by
  induction paths generalizing tip with
  | nil => exact .refl env htip
  | cons path paths ih =>
      have hrest : PutsBackTruly env ref tip paths :=
        fun other hother => htrue other (List.mem_cons_of_mem _ hother)
      rw [reinsertHashes]
      split
      · rename_i entry hash hentry hindex
        split
        · rename_i hmissing
          have hknown : tip.Known entry := by
            obtain ⟨made, hmade, hwhere⟩ := known_of_getObjId href hentry
            exact ⟨made, hsubset hmade, hwhere⟩
          have hfirst := rehashes_put_hash actor htip hknown
            (htrue path List.mem_cons_self entry hash hentry hindex hmissing)
          refine hfirst.trans (ih hfirst.valid (hsubset.trans hfirst.extends'.1) ?_)
          intro other hother entry' hash' hentry' hindex' hmissing' content hcontent
          rw [entryContent_put actor htip hknown] at hcontent
          exact hrest other hother entry' hash' hentry' hindex' hmissing' content hcontent
        · exact ih htip hsubset hrest
      · exact ih htip hsubset hrest

end Reinsert

end BranchDoc

end Backstitch
