/-
# Clients of a branch document

What a commit writes is told operation by operation: a path is given an entry or deleted,
a key is written in an entry that is known, a url only in an entry that this commit made,
and content only where the url is gone.  From that and from what merges pass on follow the
facts that hold of all copies of the document at once.
-/

import Backstitch.Document.CommitEntries
import Mathlib.Data.Char
import Mathlib.Data.List.Lex
import Mathlib.Data.Prod.Lex

namespace Backstitch

universe u₁ u₂ u₃ u₄ u₅ u₆

variable {τ : Type u₁} {σ : Type u₂} {ω : Type u₃} {ι : Type u₄} {π : Type u₅} {δ : Type u₆}

/-- A document merged with what came before it is itself. -/
def Nested.Grows [LE τ] [LE σ] (nested : Nested τ σ ω ι) : Prop :=
  (∀ object text, object ≤ nested.updateText object text) ∧
    ∀ object scene, object ≤ nested.reconcile object scene

namespace BranchDoc

/-! ## What a commit writes -/

/-- Where `commit_entries` writes what, if it started from `start`.  A scene is written
beside a url unless `plain` forbids it. -/
def Writes [DecidableEq π] (plain : Prop) (start ops : OpSet (Slot π) (Value δ)) :
    Slot π → Option (Value δ) → Prop
  | .file _, value => value = none ∨ value = some .map
  | .field entry key, value =>
      (∃ made ∈ ops, made.id = entry ∧ ∃ path, made.location = .file path) ∧
        (value ≠ none → match key with
          | .url => (∀ op ∈ start, op.id ≠ entry) ∧ ∀ op ∈ ops,
              op.location ≠ .field entry .content ∧ op.location ≠ .field entry .structuredContent
          | .content => ops.live (.field entry .url) = ∅
          | .structuredContent => plain → ops.live (.field entry .url) = ∅
          | .hash => True)

section Written

variable [DecidableEq π] [DecidableEq δ] {actors : ℕ} (actor : Fin actors)
  (nested : Nested τ σ ω ι) {doc : BranchDoc π δ τ σ} {path : π} {entry : ℕ}
  {start : OpSet (Slot π) (Value δ)} {slot : Slot π}
  {allowed : OpSet (Slot π) (Value δ) → Slot π → Option (Value δ) → Prop}

theorem written_put (hwritten : OpSet.WrittenBy actor allowed start doc.ops) {value : Value δ}
    (hallowed : allowed doc.ops slot (some value)) :
    OpSet.WrittenBy actor allowed start (doc.put actor slot value).ops := by
  rw [put]
  split
  · exact hwritten
  · exact .write hwritten hallowed

theorem written_delete (hwritten : OpSet.WrittenBy actor allowed start doc.ops)
    (hallowed : allowed doc.ops slot none) :
    OpSet.WrittenBy actor allowed start (doc.delete actor slot).ops := by
  rw [delete]
  split
  · exact hwritten
  · exact .write hwritten hallowed

theorem written_objectOrNew (hwritten : OpSet.WrittenBy actor allowed start doc.ops)
    {value : Value δ} (hallowed : allowed doc.ops slot (some value)) (found : Option ℕ) :
    OpSet.WrittenBy actor allowed start (doc.objectOrNew actor slot value found).1.ops := by
  cases found with
  | some object => exact hwritten
  | none => exact .write hwritten hallowed

/-- A link in a new entry. -/
theorem written_binary (hvalid : doc.Valid) (plain : Prop) (path : π) (handle : ι) (hash : δ) :
    OpSet.WrittenBy actor (Writes plain doc.ops) doc.ops
      (doc.commitEntry actor nested (.binary path handle hash)).1.ops := by
  let made := doc.putObject actor (.file path) .map
  let linked := made.1.put actor (.field made.2 .url) (.str (nested.automergeUrl handle))
  have hmade : Changes doc made.1 {.file path} := hvalid.putObject (.inr rfl)
  have hknown : made.1.Known made.2 :=
    known_of_get_file hmade.valid (get_putObject hvalid .map)
  have hurl : Changes made.1 linked {.field made.2 .url} := hmade.valid.put hknown
  have hnew : ∀ op ∈ doc.ops, op.id ≠ made.2 := fun op hop =>
    Nat.ne_of_lt (OpSet.lt_freshId actor hop)
  have hfree : ∀ op ∈ made.1.ops, ∀ key, op.location ≠ .field made.2 key := by
    intro op hop key heq
    rcases OpSet.mem_write_iff.mp hop with rfl | hop
    · nomatch heq
    · have hfits := hvalid.fits op hop
      rw [heq] at hfits
      obtain ⟨found, hfound, hid, -⟩ := hfits
      exact hnew found hfound hid
  have hmap : Writes plain doc.ops doc.ops (.file path) (some .map) := .inr rfl
  have hlink : Writes plain doc.ops made.1.ops (.field made.2 .url)
      (some (.str (nested.automergeUrl handle))) :=
    ⟨hknown, fun _ => ⟨hnew, fun op hop =>
      ⟨hfree op hop .content, hfree op hop .structuredContent⟩⟩⟩
  have hhash : Writes plain doc.ops linked.ops (.field made.2 .hash) (some (.bytes hash)) :=
    ⟨hurl.known hknown, fun _ => trivial⟩
  have hwritten : OpSet.WrittenBy actor (Writes plain doc.ops) doc.ops made.1.ops :=
    .write .start hmap
  exact written_put actor (written_put actor hwritten hlink) hhash

/-- Text in an entry that is there. -/
theorem written_text (hvalid : doc.Valid) (plain : Prop) (hknown : doc.Known entry)
    (hwritten : OpSet.WrittenBy actor (Writes plain start) start doc.ops)
    (content : List Char) (hash : δ) :
    let cleared := (doc.delete actor (.field entry .url)).delete actor
      (.field entry .structuredContent)
    let found := cleared.objectOrNew actor (.field entry .content) .text
      (cleared.getTyped (.field entry .content) .text)
    OpSet.WrittenBy actor (Writes plain start) start
      ((found.1.updateText nested found.2 content).put actor (.field entry .hash)
        (.bytes hash)).ops := by
  intro cleared found
  let unlinked := doc.delete actor (.field entry .url)
  have hurl : Changes doc unlinked {.field entry .url} := hvalid.delete hknown
  have hcleared : Changes unlinked cleared {.field entry .structuredContent} :=
    hurl.valid.delete (hurl.known hknown)
  have hknown' : cleared.Known entry := hcleared.known (hurl.known hknown)
  have hfits : cleared.Fits (.field entry .content) (some .text) := hknown'
  have hfound : Changes cleared found.1 {.field entry .content} :=
    hcleared.valid.objectOrNew hfits _
  have hgone : cleared.ops.live (.field entry .url) = ∅ := by
    rw [hcleared.live _ (field_not_mem entry .url nofun)]
    exact (get_eq_none_iff hurl.valid).mp (get_delete hurl.valid)
  have hdeleteUrl : Writes plain start doc.ops (.field entry .url) none :=
    ⟨hknown, fun h => absurd rfl h⟩
  have hdeleteScene : Writes plain start unlinked.ops (.field entry .structuredContent) none :=
    ⟨hurl.known hknown, fun h => absurd rfl h⟩
  have hcontent : Writes plain start cleared.ops (.field entry .content) (some .text) :=
    ⟨hknown', fun _ => hgone⟩
  have hhash : Writes plain start found.1.ops (.field entry .hash) (some (.bytes hash)) :=
    ⟨hfound.known hknown', fun _ => trivial⟩
  have hwritten : OpSet.WrittenBy actor (Writes plain start) start found.1.ops :=
    written_objectOrNew actor
      (written_delete actor (written_delete actor hwritten hdeleteUrl) hdeleteScene) hcontent _
  have htext : OpSet.WrittenBy actor (Writes plain start) start
      (found.1.updateText nested found.2 content).ops := hwritten
  exact written_put actor htext hhash

/-- A scene in an entry that is there. -/
theorem written_scene (hvalid : doc.Valid) (plain : Prop) (hknown : doc.Known entry)
    (hplain : plain → doc.ops.live (.field entry .url) = ∅)
    (hwritten : OpSet.WrittenBy actor (Writes plain start) start doc.ops) (scene : ω) (hash : δ) :
    OpSet.WrittenBy actor (Writes plain start) start
      ((doc.reconcileProp actor nested (.field entry .structuredContent) scene).put actor
        (.field entry .hash) (.bytes hash)).ops := by
  have hfits : doc.Fits (.field entry .structuredContent) (some .map) := hknown
  let found := doc.objectOrNew actor (.field entry .structuredContent) .map
    (doc.getTyped (.field entry .structuredContent) .map)
  have hfound : Changes doc found.1 {.field entry .structuredContent} :=
    hvalid.objectOrNew hfits _
  have hscene : Writes plain start doc.ops (.field entry .structuredContent) (some .map) :=
    ⟨hknown, fun _ => hplain⟩
  have hhash : Writes plain start found.1.ops (.field entry .hash) (some (.bytes hash)) :=
    ⟨hfound.known hknown, fun _ => trivial⟩
  have hreconciled : OpSet.WrittenBy actor (Writes plain start) start
      (doc.reconcileProp actor nested (.field entry .structuredContent) scene).ops :=
    written_objectOrNew actor hwritten hscene _
  exact written_put actor hreconciled hhash

/-- The entry that a scene goes into has no url. -/
def NoUrlBelow (doc : BranchDoc π δ τ σ) : CommitEntry π δ ω ι → Prop
  | .scene path _ _ =>
      ∀ entry, doc.get (.file path) = some (.map, entry) → doc.get (.field entry .url) = none
  | _ => True

/-- One entry is written as `Writes` says. -/
theorem written_commitEntry (hvalid : doc.Valid) (plain : Prop) (commit : CommitEntry π δ ω ι)
    (hplain : plain → doc.NoUrlBelow commit) :
    OpSet.WrittenBy actor (Writes plain doc.ops) doc.ops
      (doc.commitEntry actor nested commit).1.ops := by
  have hmade : ∀ path, OpSet.WrittenBy actor (Writes plain doc.ops) doc.ops
      (doc.objectOrNew actor (.file path) .map ((doc.get (.file path)).map Prod.snd)).1.ops := by
    intro path
    have hmap : Writes plain doc.ops doc.ops (.file path) (some .map) := .inr rfl
    exact written_objectOrNew actor .start hmap _
  cases commit with
  | binary path handle hash => exact written_binary actor nested hvalid plain path handle hash
  | text path content hash =>
      obtain ⟨hchanges, hget⟩ := entry_objectOrNew actor hvalid path
      rw [commitEntry, getTyped_file hvalid]
      exact written_text actor nested hchanges.valid plain
        (known_of_get_file hchanges.valid hget) (hmade path) content hash
  | scene path scene hash =>
      obtain ⟨hchanges, hget⟩ := entry_objectOrNew actor hvalid path
      rw [commitEntry, getObjId_file hvalid]
      refine written_scene actor nested hchanges.valid plain
        (known_of_get_file hchanges.valid hget) (fun h => ?_) (hmade path) scene hash
      rw [← get_eq_none_iff hchanges.valid, hchanges.get (field_not_mem_file _ .url path)]
      cases hfound : doc.get (.file path) with
      | some found =>
          obtain ⟨value, entry⟩ := found
          obtain rfl := eq_map_of_get_file hvalid hfound
          exact hplain h entry hfound
      | none =>
          rw [get_eq_none_iff hvalid]
          refine live_eq_empty_of_not_known hvalid (fun hknown => ?_) .url
          obtain ⟨op, hop, hid, -⟩ := hknown
          exact absurd hid (Nat.ne_of_lt (OpSet.lt_freshId actor hop))
  | delete path =>
      have hfits : Writes plain doc.ops doc.ops (.file path) none := .inl rfl
      exact written_delete actor .start hfits

/-- Every scene among the entries goes into an entry without a url. -/
def NoUrlsBelow : BranchDoc π δ τ σ → List (CommitEntry π δ ω ι) → Prop
  | _, [] => True
  | doc, commit :: commits =>
      doc.NoUrlBelow commit ∧ NoUrlsBelow (doc.commitEntry actor nested commit).1 commits

/-- All entries are written as `Writes` says. -/
theorem written_commitEntries (hvalid : doc.Valid) (plain : Prop)
    (commits : List (CommitEntry π δ ω ι))
    (hplain : plain → NoUrlsBelow actor nested doc commits) :
    OpSet.WrittenBy actor (Writes plain doc.ops) doc.ops
      (doc.commitEntries actor nested commits).1.ops := by
  induction commits generalizing doc with
  | nil => exact .start
  | cons commit commits ih =>
      have hfirst := written_commitEntry actor nested hvalid plain commit fun h => (hplain h).1
      have hrest := ih (hvalid.of_commitEntry actor nested commit) fun h => (hplain h).2
      refine hfirst.trans hrest fun ops slot value _ hallowed => ?_
      cases slot with
      | file path => exact hallowed
      | field entry key =>
          refine ⟨hallowed.1, fun hvalue => ?_⟩
          have hkey := hallowed.2 hvalue
          cases key with
          | url => exact ⟨fun op hop => hkey.1 op (hfirst.subset hop), hkey.2⟩
          | content => exact hkey
          | structuredContent => exact hkey
          | hash => trivial

end Written

/-! ## What a commit leaves of the document before it -/

section Grows

variable [DecidableEq π] [DecidableEq δ] {actors : ℕ} (actor : Fin actors)
  (nested : Nested τ σ ω ι) (doc : BranchDoc π δ τ σ) (slot : Slot π)

theorem objects_put (value : Value δ) : (doc.put actor slot value).texts = doc.texts ∧
    (doc.put actor slot value).scenes = doc.scenes := by
  rw [put]
  split <;> exact ⟨rfl, rfl⟩

theorem objects_delete : (doc.delete actor slot).texts = doc.texts ∧
    (doc.delete actor slot).scenes = doc.scenes := by
  rw [delete]
  split <;> exact ⟨rfl, rfl⟩

theorem objects_objectOrNew (value : Value δ) (found : Option ℕ) :
    (doc.objectOrNew actor slot value found).1.texts = doc.texts ∧
      (doc.objectOrNew actor slot value found).1.scenes = doc.scenes := by
  cases found <;> exact ⟨rfl, rfl⟩

variable {doc} [SemilatticeSup τ] [SemilatticeSup σ]

/-- A later state of a document: it has all that the earlier one had. -/
def Extends (doc doc' : BranchDoc π δ τ σ) : Prop :=
  doc.ops ⊆ doc'.ops ∧ (∀ object, doc.texts object ≤ doc'.texts object) ∧
    ∀ object, doc.scenes object ≤ doc'.scenes object

omit [DecidableEq π] [DecidableEq δ] in
theorem Extends.trans {doc' doc'' : BranchDoc π δ τ σ} (hfirst : doc.Extends doc')
    (hsecond : doc'.Extends doc'') : doc.Extends doc'' :=
  ⟨hfirst.1.trans hsecond.1, fun object => (hfirst.2.1 object).trans (hsecond.2.1 object),
    fun object => (hfirst.2.2 object).trans (hsecond.2.2 object)⟩

/-- Merging a later state into an earlier one comes to the later one. -/
theorem Extends.merge_eq {doc' : BranchDoc π δ τ σ} (hextends : doc.Extends doc') :
    doc.merge doc' = doc' := by
  have htexts : (fun object => doc.texts object ⊔ doc'.texts object) = doc'.texts := by
    funext object
    exact sup_eq_right.mpr (hextends.2.1 object)
  have hscenes : (fun object => doc.scenes object ⊔ doc'.scenes object) = doc'.scenes := by
    funext object
    exact sup_eq_right.mpr (hextends.2.2 object)
  rw [merge, Finset.union_eq_right.mpr hextends.1, htexts, hscenes]

/-- Merging an earlier state into a later one leaves the later one. -/
theorem Extends.merge_eq_left {doc' : BranchDoc π δ τ σ} (hextends : doc.Extends doc') :
    doc'.merge doc = doc' := by
  have htexts : (fun object => doc'.texts object ⊔ doc.texts object) = doc'.texts := by
    funext object
    exact sup_eq_left.mpr (hextends.2.1 object)
  have hscenes : (fun object => doc'.scenes object ⊔ doc.scenes object) = doc'.scenes := by
    funext object
    exact sup_eq_left.mpr (hextends.2.2 object)
  rw [merge, Finset.union_eq_left.mpr hextends.1, htexts, hscenes]

omit [DecidableEq π] [DecidableEq δ] in
theorem Extends.refl (doc : BranchDoc π δ τ σ) : doc.Extends doc :=
  ⟨Finset.Subset.refl _, fun _ => le_rfl, fun _ => le_rfl⟩

omit [DecidableEq π] [DecidableEq δ] in
theorem le_update {value : Type*} [Preorder value] (values : ℕ → value) {object : ℕ}
    {new : value} (hle : values object ≤ new) (other : ℕ) :
    values other ≤ Function.update values object new other := by
  rw [Function.update_apply]
  split
  · rename_i heq
    rwa [heq]
  · exact le_rfl

theorem extends_commitEntry (hvalid : doc.Valid) (hgrows : nested.Grows)
    (commit : CommitEntry π δ ω ι) :
    doc.Extends (doc.commitEntry actor nested commit).1 := by
  refine ⟨(written_commitEntry actor nested hvalid False commit False.elim).subset, ?_⟩
  cases commit with
  | binary path handle hash =>
      simp only [commitEntry, putObject, (objects_put actor _ _ _).1, (objects_put actor _ _ _).2]
      exact ⟨fun _ => le_rfl, fun _ => le_rfl⟩
  | text path content hash =>
      simp only [commitEntry, updateText, (objects_put actor _ _ _).1, (objects_put actor _ _ _).2,
        (objects_delete actor _ _).1, (objects_delete actor _ _).2,
        (objects_objectOrNew actor _ _ _ _).1, (objects_objectOrNew actor _ _ _ _).2]
      exact ⟨le_update doc.texts (hgrows.1 _ _), fun _ => le_rfl⟩
  | scene path scene hash =>
      simp only [commitEntry, reconcileProp, (objects_put actor _ _ _).1,
        (objects_put actor _ _ _).2, (objects_objectOrNew actor _ _ _ _).1,
        (objects_objectOrNew actor _ _ _ _).2]
      exact ⟨fun _ => le_rfl, le_update doc.scenes (hgrows.2 _ _)⟩
  | delete path =>
      simp only [commitEntry, (objects_delete actor _ _).1, (objects_delete actor _ _).2]
      exact ⟨fun _ => le_rfl, fun _ => le_rfl⟩

theorem extends_commitEntries (hvalid : doc.Valid) (hgrows : nested.Grows)
    (commits : List (CommitEntry π δ ω ι)) :
    doc.Extends (doc.commitEntries actor nested commits).1 := by
  induction commits generalizing doc with
  | nil => exact ⟨Finset.Subset.refl _, fun _ => le_rfl, fun _ => le_rfl⟩
  | cons commit commits ih =>
      exact (extends_commitEntry actor nested hvalid hgrows commit).trans
        (ih (hvalid.of_commitEntry actor nested commit))

end Grows

end BranchDoc

/-! ## All copies -/

section Copies

variable [DecidableEq π] [DecidableEq δ] {actors : ℕ}

/-- What holds of the copies of all clients, whatever they commit. -/
structure DocsKept (docs : Fin actors → BranchDoc π δ τ σ) : Prop where
  valid : ∀ client, (docs client).Valid
  unique : OpSet.GloballyUnique fun client => (docs client).ops
  owned : OpSet.Owned fun client => (docs client).ops

variable {docs : Fin actors → BranchDoc π δ τ σ}

omit [DecidableEq π] [DecidableEq δ] in
/-- The operations of an updated copy. -/
theorem ops_update (client : Fin actors) (doc : BranchDoc π δ τ σ) :
    (fun other => (Function.update docs client doc other).ops) =
      Function.update (fun other => (docs other).ops) client doc.ops := by
  funext other
  exact Function.apply_update (fun _ => BranchDoc.ops) docs client doc other

/-- What one client writes keeps it. -/
theorem DocsKept.write (hkept : DocsKept docs) {client : Fin actors} {doc : BranchDoc π δ τ σ}
    {allowed : OpSet (Slot π) (Value δ) → Slot π → Option (Value δ) → Prop}
    (hwritten : OpSet.WrittenBy client allowed (docs client).ops doc.ops) (hvalid : doc.Valid) :
    DocsKept (Function.update docs client doc) := by
  constructor
  · intro other
    by_cases heq : other = client
    · rwa [heq, Function.update_self]
    · rw [Function.update_of_ne heq]
      exact hkept.valid other
  · rw [ops_update]
    exact hkept.unique.write (hwritten.written hkept.owned)
  · rw [ops_update]
    exact hkept.owned.update hwritten.subset fun op hop =>
      (hwritten.mem_or_new hop).imp_right And.left

theorem DocsKept.commit (hkept : DocsKept docs) (nested : Nested τ σ ω ι) (client : Fin actors)
    (commits : List (CommitEntry π δ ω ι)) :
    DocsKept (Function.update docs client
      ((docs client).commitEntries client nested commits).1) :=
  hkept.write (BranchDoc.written_commitEntries client nested (hkept.valid client) False commits
    False.elim) ((hkept.valid client).of_commitEntries client nested commits)

/-- A merge of two valid documents is valid, if their ids are unique together. -/
theorem BranchDoc.Valid.merge [Max τ] [Max σ] {doc other : BranchDoc π δ τ σ}
    (hvalid : doc.Valid) (hother : other.Valid)
    (hunique : ∀ op ∈ doc.ops, ∀ op' ∈ other.ops, op.id = op'.id → op = op') :
    (doc.merge other).Valid := by
  refine ⟨⟨fun first hfirst second hsecond hid => ?_, fun op hop => ?_⟩, fun op hop => ?_⟩
  · rcases Finset.mem_union.mp hfirst with hfirst | hfirst <;>
      rcases Finset.mem_union.mp hsecond with hsecond | hsecond
    · exact hvalid.orderly.uniqueIds first hfirst second hsecond hid
    · exact hunique first hfirst second hsecond hid
    · exact (hunique second hsecond first hfirst hid.symm).symm
    · exact hother.orderly.uniqueIds first hfirst second hsecond hid
  · rcases Finset.mem_union.mp hop with hop | hop
    · exact hvalid.orderly.earlier op hop
    · exact hother.orderly.earlier op hop
  · have hmono : ∀ docs : BranchDoc π δ τ σ, docs.ops ⊆ (doc.merge other).ops →
        docs.Fits op.location op.value → (doc.merge other).Fits op.location op.value := by
      intro docs hsubset
      cases op.location with
      | file path => exact id
      | field entry key =>
          exact fun hfits => hfits.imp fun _ hmade => hmade.imp_left fun hmem => hsubset hmem
    rcases Finset.mem_union.mp hop with hop | hop
    · exact hmono doc Finset.subset_union_left (hvalid.fits op hop)
    · exact hmono other Finset.subset_union_right (hother.fits op hop)

theorem DocsKept.merge [Max τ] [Max σ] (hkept : DocsKept docs) (into source : Fin actors) :
    DocsKept (Function.update docs into ((docs into).merge (docs source))) := by
  constructor
  · intro other
    by_cases heq : other = into
    · rw [heq, Function.update_self]
      exact (hkept.valid into).merge (hkept.valid source) (hkept.unique into source)
    · rw [Function.update_of_ne heq]
      exact hkept.valid other
  · rw [ops_update]
    exact hkept.unique.merge into source
  · rw [ops_update]
    exact hkept.owned.merge into source

omit [DecidableEq π] [DecidableEq δ] in
theorem emptyDoc_valid (nested : Nested τ σ ω ι) :
    (nested.emptyDoc : BranchDoc π δ τ σ).Valid :=
  ⟨⟨fun op hop => absurd hop (Finset.notMem_empty op),
    fun op hop => absurd hop (Finset.notMem_empty op)⟩,
    fun op hop => absurd hop (Finset.notMem_empty op)⟩

omit [DecidableEq π] [DecidableEq δ] in
/-- Copies of one document are kept so. -/
theorem docsKept_of_same {doc : BranchDoc π δ τ σ} (hvalid : doc.Valid) :
    DocsKept fun _ : Fin actors => doc where
  valid _ := hvalid
  unique _ _ := hvalid.orderly.uniqueIds
  owned holder op hop := ⟨⟨op.id % actors, Nat.mod_lt _ holder.pos⟩, rfl, hop⟩

omit [DecidableEq π] [DecidableEq δ] in
theorem docsKept_of_start {nested : Nested τ σ ω ι}
    (hstart : ∀ client, docs client = nested.emptyDoc) : DocsKept docs := by
  rw [funext hstart]
  exact docsKept_of_same (emptyDoc_valid nested)

/-- **Whatever is committed and merged, all copies are kept so.** -/
theorem docsKept_of_reachable [Max τ] [Max σ] {nested : Nested τ σ ω ι}
    {allowed : (Fin actors → BranchDoc π δ τ σ) → DocAction π δ ω ι actors → Prop}
    (hreach : (docSystem nested actors).Reachable allowed docs) : DocsKept docs := by
  refine hreach.invariant (fun _ hstart => docsKept_of_start hstart) ?_
  intro docs action next hkept _ hstep
  cases action with
  | commit client entries =>
      cases hstep
      exact hkept.commit nested client entries
  | merge into source =>
      cases hstep
      exact hkept.merge into source

/-- **Committing reads back.** -/
theorem commitEntries_readsBack [Max τ] [Max σ] {nested : Nested τ σ ω ι}
    (hnested : nested.HydratesBack)
    (hreach : (docSystem nested actors).Reachable (fun _ _ => True) docs) (client : Fin actors)
    (commits : List (CommitEntry π δ ω ι)) (hdistinct : (commits.map CommitEntry.path).Nodup) :
    let result := (docs client).commitEntries client nested commits
    (∀ commit ∈ commits, result.1.contentAt nested commit.path = commit.committed ∧
      result.1.hashesAt commit.path = commit.hashes) ∧
    (∀ path ∉ commits.map CommitEntry.path,
      result.1.contentAt nested path = (docs client).contentAt nested path ∧
        result.1.hashesAt path = (docs client).hashesAt path) ∧
    List.Forall₂ (BranchDoc.Records nested (docs client)) commits result.2 :=
  ((docsKept_of_reachable hreach).valid client).commitEntries client nested hnested hdistinct

end Copies

/-- Texts and scenes of which the last one written is read, scenes being numbers. -/
def lastWritten : Nested (ℕ ×ₗ List Char) (ℕ ×ₗ ℕ) ℕ ℕ where
  emptyText := toLex (0, [])
  updateText object text := toLex ((ofLex object).1 + 1, text)
  textAt object := (ofLex object).2
  textAt_updateText _ _ := rfl
  emptyScene := toLex (0, 0)
  reconcile object scene := toLex ((ofLex object).1 + 1, scene)
  hydrate object := if (ofLex object).1 = 0 then none else some (ofLex object).2
  display id := List.replicate id 'x'
  fromStr text := some text.length
  fromStr_display id := by rw [List.length_replicate]

theorem lastWritten_hydratesBack : lastWritten.HydratesBack := by
  intro object scene
  simp [lastWritten]

theorem lastWritten_grows : lastWritten.Grows :=
  ⟨fun object _ => Prod.Lex.toLex_le_toLex.mpr (.inl (Nat.lt_succ_self (ofLex object).1)),
    fun object _ => Prod.Lex.toLex_le_toLex.mpr (.inl (Nat.lt_succ_self (ofLex object).1))⟩

/-- The copies of a branch document without files. -/
def noFiles (actors : ℕ) : Fin actors → BranchDoc ℕ ℕ (ℕ ×ₗ List Char) (ℕ ×ₗ ℕ) :=
  fun _ => lastWritten.emptyDoc

/-- A scene is committed at path 0, and then text there and a link at path 1. -/
theorem commitEntries_readsBack_scene_text :
    let docs := (docSystem lastWritten 1).after (noFiles 1) [.commit 0 [.scene 0 7 70]]
    let result := (docs 0).commitEntries (0 : Fin 1) lastWritten
      [.text 0 "a".toList 71, .binary 1 5 72, .delete 2]
    result.1.contentAt lastWritten 0 = some (.text "a".toList) ∧
      result.1.hashesAt 1 = {.bytes 72} ∧
      List.Forall₂ (BranchDoc.Records lastWritten (docs 0))
        [.text 0 "a".toList 71, .binary 1 5 72, .delete 2] result.2 := by
  intro docs result
  have hreach : (docSystem lastWritten 1).Reachable (fun _ _ => True) docs :=
    (System.Reachable.start fun _ => rfl).after (System.runsWithin_true _ _)
  obtain ⟨hread, -, hrecords⟩ := commitEntries_readsBack lastWritten_hydratesBack hreach 0
    [.text 0 "a".toList 71, .binary 1 5 72, .delete 2] (by decide)
  exact ⟨(hread (.text 0 "a".toList 71) (by simp)).1, (hread (.binary 1 5 72) (by simp)).2,
    hrecords⟩

/-- The deletion of a path that is not there is recorded as a deletion, although the path
was absent before. -/
theorem commitEntries_delete_absent :
    ¬ ∀ docs : Fin 1 → BranchDoc ℕ ℕ (ℕ ×ₗ List Char) (ℕ ×ₗ ℕ),
      (docSystem lastWritten 1).Reachable (fun _ _ => True) docs →
      ∀ commits : List (CommitEntry ℕ ℕ ℕ ℕ), (commits.map CommitEntry.path).Nodup →
        List.Forall₂ (fun commit change => change.changeType = .created ↔
            (docs 0).contentAt lastWritten commit.path = none)
          commits ((docs 0).commitEntries (0 : Fin 1) lastWritten commits).2 := by
  intro hall
  have hrecords := hall (noFiles 1) (.start fun _ => rfl) [.delete 0] (by decide)
  have habsent := (List.forall₂_cons.mp hrecords).1.mpr rfl
  nomatch habsent

end Backstitch
