/-
# Committing reads back

`commit_entries` changes a branch document slot by slot.  `Changes` says which slots a step
may have changed; all others show what they showed, down to the text and scene objects in
them.  A commit changes the slot of its path and the keys of one entry there, which no other
path shows.
-/

import Backstitch.Document.BranchDocument

namespace Backstitch

universe u₁ u₂ u₃ u₄ u₅ u₆

variable {τ : Type u₁} {σ : Type u₂} {ω : Type u₃} {ι : Type u₄} {π : Type u₅} {δ : Type u₆}

namespace BranchDoc

section Valid

variable (doc : BranchDoc π δ τ σ)

/-- An entry that some path was given. -/
def Known (entry : ℕ) : Prop :=
  ∃ made ∈ doc.ops, made.id = entry ∧ ∃ path, made.location = .file path

/-- What may be put there: a map at a path, and anything at a key of a known entry. -/
def Fits : Slot π → Option (Value δ) → Prop
  | .file _, value => value = none ∨ value = some .map
  | .field entry _, _ => doc.Known entry

variable [DecidableEq π]

structure Valid : Prop where
  orderly : doc.ops.Orderly
  fits : ∀ op ∈ doc.ops, doc.Fits op.location op.value

end Valid

section Reading

variable [DecidableEq π] {doc doc' : BranchDoc π δ τ σ} {slot : Slot π} {value : Value δ} {id : ℕ}

/-- A slot shows a live operation. -/
theorem get_eq_some_iff (hvalid : doc.Valid) : doc.get slot = some (value, id) ↔
    ∃ op, doc.ops.Wins slot op ∧ op.value = some value ∧ op.id = id := by
  simp only [get, Option.bind_eq_some_iff, Option.map_eq_some_iff, Prod.mk.injEq,
    OpSet.winner_eq_some_iff hvalid.orderly.uniqueIds]
  constructor
  · intro ⟨op, hwins, found, hvalue, hfound, hid⟩
    exact ⟨op, hwins, hvalue.trans (congrArg some hfound), hid⟩
  · intro ⟨op, hwins, hvalue, hid⟩
    exact ⟨op, hwins, value, hvalue, rfl, hid⟩

theorem get_eq_none_iff (hvalid : doc.Valid) :
    doc.get slot = none ↔ doc.ops.live slot = ∅ := by
  rw [← OpSet.winner_eq_none_iff hvalid.orderly.uniqueIds, get, Option.bind_eq_none_iff]
  constructor
  · intro hnone
    by_contra hsome
    obtain ⟨op, hop⟩ := Option.ne_none_iff_exists'.mp hsome
    have hlive := OpSet.mem_live_of_winner hvalid.orderly.uniqueIds hop
    have hvalue := hnone op hop
    rw [Option.map_eq_none_iff] at hvalue
    exact (OpSet.mem_live_iff.mp hlive).2.2.1 hvalue
  · intro hnone op hop
    nomatch hnone.symm.trans hop

theorem get_of_live_eq {op : Op (Slot π) (Value δ)} (hlive : doc.ops.live slot = {op}) :
    doc.get slot = op.value.map fun value => (value, op.id) := by
  rw [get, OpSet.winner_eq_of_live_eq hlive]
  rfl

/-- A path shows a map or nothing. -/
theorem eq_map_of_get_file (hvalid : doc.Valid) {path : π}
    (hget : doc.get (.file path) = some (value, id)) : value = .map := by
  obtain ⟨op, hwins, hvalue, -⟩ := (get_eq_some_iff hvalid).mp hget
  have hfits := hvalid.fits op (OpSet.mem_of_mem_live hwins.1)
  rw [OpSet.location_of_mem_live hwins.1, hvalue] at hfits
  exact hfits.elim nofun Option.some.inj

/-- What a path shows is known. -/
theorem known_of_get_file (hvalid : doc.Valid) {path : π}
    (hget : doc.get (.file path) = some (value, id)) : doc.Known id := by
  obtain ⟨op, hwins, -, hid⟩ := (get_eq_some_iff hvalid).mp hget
  exact ⟨op, OpSet.mem_of_mem_live hwins.1, hid, path, OpSet.location_of_mem_live hwins.1⟩

/-- Two slots never show the same object. -/
theorem eq_of_get_of_get (hvalid : doc.Valid) {other : Slot π} {value' : Value δ}
    (hget : doc.get slot = some (value, id)) (hother : doc.get other = some (value', id)) :
    slot = other := by
  obtain ⟨op, hwins, -, hid⟩ := (get_eq_some_iff hvalid).mp hget
  obtain ⟨op', hwins', -, hid'⟩ := (get_eq_some_iff hvalid).mp hother
  obtain rfl : op = op' := hvalid.orderly.uniqueIds op (OpSet.mem_of_mem_live hwins.1) op'
    (OpSet.mem_of_mem_live hwins'.1) (hid.trans hid'.symm)
  exact (OpSet.location_of_mem_live hwins.1).symm.trans (OpSet.location_of_mem_live hwins'.1)

/-- No key of an entry that is not known is there. -/
theorem live_eq_empty_of_not_known (hvalid : doc.Valid) {entry : ℕ} (hentry : ¬ doc.Known entry)
    (key : FieldKey) : doc.ops.live (.field entry key) = ∅ := by
  rw [Finset.eq_empty_iff_forall_notMem]
  intro op hlive
  have hfits := hvalid.fits op (OpSet.mem_of_mem_live hlive)
  rw [OpSet.location_of_mem_live hlive] at hfits
  exact hentry hfits

end Reading

/-! ## Changes -/

section Changes

variable [DecidableEq π] {doc doc' doc'' : BranchDoc π δ τ σ}

/-- One document comes from another by steps that change no more than these slots. -/
structure Changes (doc doc' : BranchDoc π δ τ σ) (slots : Set (Slot π)) : Prop where
  valid : doc'.Valid
  subset : doc.ops ⊆ doc'.ops
  live : ∀ slot ∉ slots, doc'.ops.live slot = doc.ops.live slot
  objects : ∀ slot ∉ slots, ∀ op ∈ doc.ops.live slot,
    doc'.texts op.id = doc.texts op.id ∧ doc'.scenes op.id = doc.scenes op.id

namespace Changes

variable {slots more : Set (Slot π)} {slot : Slot π}

theorem refl (hvalid : doc.Valid) : Changes doc doc slots :=
  ⟨hvalid, Finset.Subset.refl _, fun _ _ => rfl, fun _ _ _ _ => ⟨rfl, rfl⟩⟩

theorem mono (hchanges : Changes doc doc' slots) (hsubset : slots ⊆ more) :
    Changes doc doc' more where
  valid := hchanges.valid
  subset := hchanges.subset
  live slot hslot := hchanges.live slot fun hmem => hslot (hsubset hmem)
  objects slot hslot := hchanges.objects slot fun hmem => hslot (hsubset hmem)

theorem trans (hfirst : Changes doc doc' slots) (hsecond : Changes doc' doc'' slots) :
    Changes doc doc'' slots where
  valid := hsecond.valid
  subset := hfirst.subset.trans hsecond.subset
  live slot hslot := (hsecond.live slot hslot).trans (hfirst.live slot hslot)
  objects := by
    intro slot hslot op hop
    have hfirst' := hfirst.objects slot hslot op hop
    rw [← hfirst.live slot hslot] at hop
    have hsecond' := hsecond.objects slot hslot op hop
    exact ⟨hsecond'.1.trans hfirst'.1, hsecond'.2.trans hfirst'.2⟩

theorem get (hchanges : Changes doc doc' slots) (hslot : slot ∉ slots) :
    doc'.get slot = doc.get slot := by
  rw [BranchDoc.get, BranchDoc.get, OpSet.winner_congr (hchanges.live slot hslot)]

theorem getAll (hchanges : Changes doc doc' slots) (hslot : slot ∉ slots) :
    doc'.getAll slot = doc.getAll slot := by
  rw [BranchDoc.getAll, BranchDoc.getAll, hchanges.live slot hslot]

theorem getObjId (hchanges : Changes doc doc' slots) (hslot : slot ∉ slots) :
    doc'.getObjId slot = doc.getObjId slot := by
  rw [BranchDoc.getObjId, BranchDoc.getObjId, hchanges.get hslot]

theorem getString (hchanges : Changes doc doc' slots) (hslot : slot ∉ slots) :
    doc'.getString slot = doc.getString slot := by
  rw [BranchDoc.getString, BranchDoc.getString, hchanges.get hslot]

/-- The object that an unchanged slot shows is unchanged. -/
theorem object (hchanges : Changes doc doc' slots) (hvalid : doc.Valid) (hslot : slot ∉ slots)
    {value : Value δ} {id : ℕ} (hget : doc.get slot = some (value, id)) :
    doc'.texts id = doc.texts id ∧ doc'.scenes id = doc.scenes id := by
  obtain ⟨op, hwins, -, rfl⟩ := (get_eq_some_iff hvalid).mp hget
  exact hchanges.objects slot hslot op hwins.1

theorem known (hchanges : Changes doc doc' slots) {entry : ℕ} (hknown : doc.Known entry) :
    doc'.Known entry :=
  hknown.imp fun _ hmade => hmade.imp_left fun hmem => hchanges.subset hmem

end Changes

/-- A path that no change reaches reads the same. -/
theorem Changes.contentAt {slots : Set (Slot π)} (hchanges : Changes doc doc' slots)
    (hvalid : doc.Valid) (nested : Nested τ σ ω ι) {path : π} (hfile : .file path ∉ slots)
    (hfields : ∀ entry, doc.get (.file path) = some (.map, entry) →
      ∀ key, .field entry key ∉ slots) :
    doc'.contentAt nested path = doc.contentAt nested path ∧
      doc'.hashesAt path = doc.hashesAt path := by
  rw [BranchDoc.contentAt, BranchDoc.contentAt, hashesAt, hashesAt, hchanges.get hfile]
  cases hget : doc.get (.file path) with
  | none => exact ⟨rfl, rfl⟩
  | some found =>
      obtain ⟨value, entry⟩ := found
      obtain rfl := eq_map_of_get_file hvalid hget
      have hfield := hfields entry hget
      refine ⟨congrArg some ?_, hchanges.getAll (hfield .hash)⟩
      have hobj : doc.getObjId (.file path) = some entry := by rw [BranchDoc.getObjId, hget]
      simp only [hydrateContentAt, hydrateSceneAt, hchanges.getObjId hfile, hobj,
        hchanges.get (hfield .structuredContent), hchanges.get (hfield .content),
        hchanges.getString (hfield .url)]
      cases hscene : doc.get (.field entry .structuredContent) with
      | some found =>
          obtain ⟨value, id⟩ := found
          cases value <;> simp only [(hchanges.object hvalid (hfield _) hscene).2]
      | none =>
          cases hcontent : doc.get (.field entry .content) with
          | some found =>
              obtain ⟨value, id⟩ := found
              cases value <;> simp only [(hchanges.object hvalid (hfield _) hcontent).1]
          | none => rfl

end Changes

/-! ## The steps of a commit -/

section Steps

variable [DecidableEq π] [DecidableEq δ] {actors : ℕ} {actor : Fin actors}
  {doc : BranchDoc π δ τ σ} {slot : Slot π}

/-- An operation changes the slot it is made at. -/
theorem Valid.write (hvalid : doc.Valid) {value : Option (Value δ)} (hfits : doc.Fits slot value) :
    Changes doc { doc with
      ops := doc.ops.write (OpSet.freshId actor doc.ops) slot value } {slot} := by
  have hlater : ∀ op ∈ doc.ops, op.id < OpSet.freshId actor doc.ops :=
    fun op hop => OpSet.lt_freshId actor hop
  have hmono : ∀ {slot value}, doc.Fits slot value → Fits { doc with
      ops := doc.ops.write (OpSet.freshId actor doc.ops) slot value } slot value := by
    intro slot value hfits
    cases slot with
    | file path => exact hfits
    | field entry key =>
        exact hfits.imp fun _ hmade => hmade.imp_left fun hmem => OpSet.subset_write hmem
  constructor
  · refine ⟨hvalid.orderly.write hlater, fun op hop => ?_⟩
    rcases OpSet.mem_write_iff.mp hop with rfl | hop
    · exact hmono hfits
    · have hold := hvalid.fits op hop
      revert hold
      cases op.location with
      | file path => exact id
      | field entry key =>
          exact fun hold => hold.imp fun _ hmade =>
            hmade.imp_left fun hmem => OpSet.subset_write hmem
  · exact OpSet.subset_write
  · exact fun other hother => OpSet.live_write_of_ne fun heq => hother heq.symm
  · exact fun _ _ _ _ => ⟨rfl, rfl⟩

theorem Valid.put (hvalid : doc.Valid) {value : Value δ} (hfits : doc.Fits slot (some value)) :
    Changes doc (doc.put actor slot value) {slot} := by
  rw [BranchDoc.put]
  split
  · exact .refl hvalid
  · exact hvalid.write hfits

theorem Valid.putObject (hvalid : doc.Valid) {value : Value δ}
    (hfits : doc.Fits slot (some value)) :
    Changes doc (doc.putObject actor slot value).1 {slot} :=
  hvalid.write hfits

theorem Valid.delete (hvalid : doc.Valid) (hfits : doc.Fits slot none) :
    Changes doc (doc.delete actor slot) {slot} := by
  rw [BranchDoc.delete]
  split
  · exact .refl hvalid
  · exact hvalid.write hfits

theorem Valid.objectOrNew (hvalid : doc.Valid) {value : Value δ}
    (hfits : doc.Fits slot (some value)) (found : Option ℕ) :
    Changes doc (doc.objectOrNew actor slot value found).1 {slot} := by
  cases found with
  | some object => exact .refl hvalid
  | none => exact hvalid.putObject hfits

omit [DecidableEq δ] in
/-- Writing into the object that a slot shows changes that slot only. -/
theorem Valid.inObject (hvalid : doc.Valid) {value : Value δ} {object : ℕ}
    (hget : doc.get slot = some (value, object)) (text : τ) (scene : σ) :
    Changes doc { doc with
      texts := Function.update doc.texts object text
      scenes := Function.update doc.scenes object scene } {slot} := by
  refine ⟨⟨hvalid.orderly, fun op hop => ?_⟩, Finset.Subset.refl _, fun _ _ => rfl, ?_⟩
  · exact hvalid.fits op hop
  · intro other hother op hop
    obtain ⟨shown, hwins, -, hid⟩ := (get_eq_some_iff hvalid).mp hget
    have hne : op.id ≠ object := by
      intro heq
      obtain rfl : op = shown := hvalid.orderly.uniqueIds op (OpSet.mem_of_mem_live hop) shown
        (OpSet.mem_of_mem_live hwins.1) (heq.trans hid.symm)
      exact hother ((OpSet.location_of_mem_live hop).symm.trans
        (OpSet.location_of_mem_live hwins.1))
    exact ⟨Function.update_of_ne hne _ _, Function.update_of_ne hne _ _⟩

omit [DecidableEq δ] in
theorem Valid.updateText (hvalid : doc.Valid) (nested : Nested τ σ ω ι) {value : Value δ}
    {object : ℕ} (hget : doc.get slot = some (value, object)) (content : List Char) :
    Changes doc (doc.updateText nested object content) {slot} := by
  have h := hvalid.inObject hget (nested.updateText (doc.texts object) content)
    (doc.scenes object)
  rwa [Function.update_eq_self] at h

/-! What the slot shows afterwards. -/

/-- A written value is all there is. -/
theorem live_write (hvalid : doc.Valid) (value : Value δ) :
    ((doc.ops.write (OpSet.freshId actor doc.ops) slot (some value)).live slot) =
      {⟨OpSet.freshId actor doc.ops, slot, some value, (doc.ops.live slot).image Op.id⟩} :=
  OpSet.live_write_some hvalid.orderly fun _ hop => OpSet.lt_freshId actor hop

theorem getAll_put (hvalid : doc.Valid) (value : Value δ) :
    (doc.put actor slot value).getAll slot = {value} := by
  rw [put]
  split
  · assumption
  · rw [getAll, live_write hvalid value]
    rfl

theorem get_putObject (hvalid : doc.Valid) (value : Value δ) :
    (doc.putObject actor slot value).1.get slot =
      some (value, (doc.putObject actor slot value).2) := by
  have hlive : (doc.putObject actor slot value).1.ops.live slot = _ := live_write hvalid value
  exact get_of_live_eq hlive

theorem get_delete (hvalid : (doc.delete actor slot).Valid) :
    (doc.delete actor slot).get slot = none := by
  rw [get_eq_none_iff hvalid, delete]
  split
  · assumption
  · exact OpSet.live_write_none

omit [DecidableEq δ] in
/-- A slot that has just one value shows it. -/
theorem get_of_getAll {value : Value δ} (hall : doc.getAll slot = {value}) (hvalid : doc.Valid) :
    ∃ id, doc.get slot = some (value, id) := by
  cases hget : doc.get slot with
  | none =>
      rw [getAll, (get_eq_none_iff hvalid).mp hget] at hall
      exact absurd hall (Multiset.zero_ne_singleton value)
  | some found =>
      obtain ⟨shown, id⟩ := found
      obtain ⟨op, hwins, hvalue, -⟩ := (get_eq_some_iff hvalid).mp hget
      have hmem : shown ∈ doc.getAll slot :=
        (Multiset.mem_filterMap Op.value _).mpr ⟨op, hwins.1, hvalue⟩
      rw [hall, Multiset.mem_singleton] at hmem
      exact ⟨id, by rw [hmem]⟩

theorem get_of_getTyped {type : Value δ} {object : ℕ}
    (hfound : doc.getTyped slot type = some object) : doc.get slot = some (type, object) := by
  rw [getTyped] at hfound
  split at hfound
  · rename_i value id hget
    split at hfound <;> cases hfound
    subst type
    exact hget
  · nomatch hfound

/-- Found or new, the object is there afterwards. -/
theorem get_objectOrNew (hvalid : doc.Valid) {type : Value δ} {found : Option ℕ}
    (hfound : ∀ object, found = some object → doc.get slot = some (type, object)) :
    (doc.objectOrNew actor slot type found).1.get slot =
      some (type, (doc.objectOrNew actor slot type found).2) := by
  cases found with
  | some object => exact hfound object rfl
  | none => exact get_putObject hvalid type

end Steps

end BranchDoc

/-! ## One entry -/

namespace CommitEntry

/-- The content that an entry commits. -/
def committed : CommitEntry π δ ω ι → Option (Hydrated ω ι)
  | .binary _ handle _ => some (.linked handle)
  | .text _ content _ => some (.text content)
  | .scene _ data _ => some (.scene data)
  | .delete _ => none

/-- The hash that an entry commits. -/
def hashes : CommitEntry π δ ω ι → Multiset (Value δ)
  | .binary _ _ hash | .text _ _ hash | .scene _ _ hash => {.bytes hash}
  | .delete _ => 0

def IsDelete : CommitEntry π δ ω ι → Prop
  | .delete _ => True
  | _ => False

end CommitEntry

namespace BranchDoc

variable [DecidableEq π]

/-- The keys of one entry. -/
def entrySlots (entry : ℕ) : Set (Slot π) :=
  {slot | ∃ key, slot = .field entry key}

omit [DecidableEq π] in
theorem file_not_mem_entrySlots (path : π) (entry : ℕ) : Slot.file path ∉ entrySlots entry :=
  fun ⟨_, heq⟩ => nomatch heq

omit [DecidableEq π] in
theorem field_not_mem_file (entry : ℕ) (key : FieldKey) (path : π) :
    Slot.field entry key ∉ ({.file path} : Set (Slot π)) :=
  nofun

omit [DecidableEq π] in
theorem singleton_subset_entrySlots (entry : ℕ) (key : FieldKey) :
    ({.field entry key} : Set (Slot π)) ⊆ entrySlots entry :=
  fun _ hslot => ⟨key, hslot⟩

omit [DecidableEq π] in
/-- A key is not another key. -/
theorem field_not_mem (entry : ℕ) (key : FieldKey) {other : FieldKey} (hne : key ≠ other) :
    Slot.field entry key ∉ ({.field entry other} : Set (Slot π)) :=
  fun heq => hne (Slot.field.inj heq).2

/-- What a commit of one entry comes to. -/
structure Commits (nested : Nested τ σ ω ι) (doc doc' : BranchDoc π δ τ σ)
    (entry : CommitEntry π δ ω ι) (change : ChangedFile π) : Prop where
  valid : doc'.Valid
  content : doc'.contentAt nested entry.path = entry.committed
  hashes : doc'.hashesAt entry.path = entry.hashes
  others : ∀ path ≠ entry.path, doc'.contentAt nested path = doc.contentAt nested path ∧
    doc'.hashesAt path = doc.hashesAt path
  path : change.path = entry.path
  deleted : change.changeType = .deleted ↔ entry.IsDelete
  created : change.changeType = .created ↔
    ¬ entry.IsDelete ∧ doc.contentAt nested entry.path = none

section Entry

variable [DecidableEq δ] {actors : ℕ} (actor : Fin actors) (nested : Nested τ σ ω ι)
  {doc doc' : BranchDoc π δ τ σ} {path other : π} {entry : ℕ}

omit [DecidableEq δ] in
theorem contentAt_eq_none_iff (hvalid : doc.Valid) :
    doc.contentAt nested path = none ↔ doc.get (.file path) = none := by
  rw [contentAt]
  cases hget : doc.get (.file path) with
  | none => simp
  | some found =>
      obtain ⟨value, entry⟩ := found
      obtain rfl := eq_map_of_get_file hvalid hget
      simp

omit [DecidableEq δ] in
/-- A change of what a path shows changes no other path. -/
theorem Changes.others_of_file (hvalid : doc.Valid) (hchanges : Changes doc doc' {.file path})
    (hne : other ≠ path) : doc'.contentAt nested other = doc.contentAt nested other ∧
      doc'.hashesAt other = doc.hashesAt other := by
  refine hchanges.contentAt hvalid nested ?_ fun _ _ _ => nofun
  intro heq
  exact hne (Slot.file.inj heq)

omit [DecidableEq δ] in
/-- Nor does a change of the entry that it shows. -/
theorem Changes.others_of_entry (hvalid : doc.Valid)
    (hget : doc.get (.file path) = some (.map, entry))
    (hchanges : Changes doc doc' (entrySlots entry)) (hne : other ≠ path) :
    doc'.contentAt nested other = doc.contentAt nested other ∧
      doc'.hashesAt other = doc.hashesAt other := by
  refine hchanges.contentAt hvalid nested (fun ⟨key, heq⟩ => nomatch heq) ?_
  intro shown hshown key ⟨key', heq⟩
  obtain rfl := (Slot.field.inj heq).1
  exact hne (Slot.file.inj (eq_of_get_of_get hvalid hshown hget))

/-- Text in the entry that a path shows. -/
theorem commitText (hvalid : doc.Valid) (hget : doc.get (.file path) = some (.map, entry))
    (content : List Char) (hash : δ) :
    let cleared := (doc.delete actor (.field entry .url)).delete actor
      (.field entry .structuredContent)
    let found := cleared.objectOrNew actor (.field entry .content) .text
      (cleared.getTyped (.field entry .content) .text)
    let final := (found.1.updateText nested found.2 content).put actor
      (.field entry .hash) (.bytes hash)
    Changes doc final (entrySlots entry) ∧
      final.contentAt nested path = some (.text content) ∧ final.hashesAt path = {.bytes hash} := by
  intro cleared found final
  have hkey : ∀ key, ({.field entry key} : Set (Slot π)) ⊆ entrySlots entry :=
    singleton_subset_entrySlots entry
  have hknown : doc.Known entry := known_of_get_file hvalid hget
  have hurl : Changes doc (doc.delete actor (.field entry .url)) {.field entry .url} :=
    hvalid.delete hknown
  have hstructured : Changes (doc.delete actor (.field entry .url)) cleared
      {.field entry .structuredContent} := hurl.valid.delete (hurl.known hknown)
  have hfits : cleared.Fits (.field entry .content) (some .text) :=
    hstructured.known (hurl.known hknown)
  have hcontent : Changes cleared found.1 {.field entry .content} :=
    hstructured.valid.objectOrNew hfits _
  have hshown : found.1.get (.field entry .content) = some (.text, found.2) :=
    get_objectOrNew hstructured.valid fun _ => get_of_getTyped
  have htext : Changes found.1 (found.1.updateText nested found.2 content)
      {.field entry .content} := hcontent.valid.updateText nested hshown content
  have hhash : Changes (found.1.updateText nested found.2 content) final {.field entry .hash} :=
    htext.valid.put (htext.known (hcontent.known (hstructured.known (hurl.known hknown))))
  have hall : Changes doc final (entrySlots entry) :=
    (hurl.mono (hkey _)).trans ((hstructured.mono (hkey _)).trans
      ((hcontent.mono (hkey _)).trans ((htext.mono (hkey _)).trans (hhash.mono (hkey _)))))
  have hfile : final.get (.file path) = some (.map, entry) := by
    rw [hall.get (file_not_mem_entrySlots path entry), hget]
  have hnone : final.get (.field entry .structuredContent) = none := by
    rw [hhash.get (field_not_mem entry .structuredContent nofun),
      htext.get (field_not_mem entry .structuredContent nofun),
      hcontent.get (field_not_mem entry .structuredContent nofun)]
    exact get_delete hstructured.valid
  have hsome : final.get (.field entry .content) = some (.text, found.2) :=
    (hhash.get (field_not_mem entry .content nofun)).trans hshown
  have hread : final.texts found.2 = nested.updateText (found.1.texts found.2) content :=
    (hhash.object htext.valid (field_not_mem entry .content nofun) hshown).1.trans
      (Function.update_self _ _ _)
  refine ⟨hall, ?_, ?_⟩
  · simp [contentAt, hydrateContentAt, hfile, hnone, hsome, hread, nested.textAt_updateText]
  · simp only [hashesAt, hfile]
    exact getAll_put htext.valid _

/-- A scene in the entry that a path shows. -/
theorem commitScene (hvalid : doc.Valid) (hget : doc.get (.file path) = some (.map, entry))
    (scene : ω) (hash : δ) :
    let final := (doc.reconcileProp actor nested (.field entry .structuredContent) scene).put
      actor (.field entry .hash) (.bytes hash)
    Changes doc final (entrySlots entry) ∧
      ((∀ object, nested.hydrate (nested.reconcile object scene) = some scene) →
        final.contentAt nested path = some (.scene scene)) ∧
      final.hashesAt path = {.bytes hash} := by
  intro final
  have hkey : ∀ key, ({.field entry key} : Set (Slot π)) ⊆ entrySlots entry :=
    singleton_subset_entrySlots entry
  have hknown : doc.Known entry := known_of_get_file hvalid hget
  have hfits : doc.Fits (.field entry .structuredContent) (some .map) := hknown
  let found := doc.objectOrNew actor (.field entry .structuredContent) .map
    (doc.getTyped (.field entry .structuredContent) .map)
  let reconciled := doc.reconcileProp actor nested (.field entry .structuredContent) scene
  have hfound : Changes doc found.1 {.field entry .structuredContent} :=
    hvalid.objectOrNew hfits _
  have hshown : found.1.get (.field entry .structuredContent) = some (.map, found.2) :=
    get_objectOrNew hvalid fun _ => get_of_getTyped
  have hscene : Changes found.1 reconciled {.field entry .structuredContent} := by
    have h := hfound.valid.inObject hshown (found.1.texts found.2)
      (nested.reconcile (found.1.scenes found.2) scene)
    rwa [Function.update_eq_self] at h
  have hhash : Changes reconciled final {.field entry .hash} :=
    hscene.valid.put (hscene.known (hfound.known hknown))
  have hall : Changes doc final (entrySlots entry) :=
    (hfound.mono (hkey _)).trans ((hscene.mono (hkey _)).trans (hhash.mono (hkey _)))
  have hfile : final.get (.file path) = some (.map, entry) := by
    rw [hall.get (file_not_mem_entrySlots path entry), hget]
  have hsome : final.get (.field entry .structuredContent) = some (.map, found.2) :=
    (hhash.get (field_not_mem entry .structuredContent nofun)).trans hshown
  have hread : final.scenes found.2 = nested.reconcile (found.1.scenes found.2) scene :=
    (hhash.object hscene.valid (field_not_mem entry .structuredContent nofun) hshown).2.trans
      (Function.update_self _ _ _)
  refine ⟨hall, fun hnested => ?_, ?_⟩
  · simp [contentAt, hydrateContentAt, hydrateSceneAt, getObjId, hfile, hsome, hread, hnested]
  · simp only [hashesAt, hfile]
    exact getAll_put hscene.valid _

/-- A link in a new entry. -/
theorem commitBinary (hvalid : doc.Valid) (path : π) (handle : ι) (hash : δ) :
    let made := doc.putObject actor (.file path) .map
    let final := (made.1.put actor (.field made.2 .url) (.str (nested.automergeUrl handle))).put
      actor (.field made.2 .hash) (.bytes hash)
    Changes doc made.1 {.file path} ∧ made.1.get (.file path) = some (.map, made.2) ∧
      Changes made.1 final (entrySlots made.2) ∧
      final.contentAt nested path = some (.linked handle) ∧
      final.hashesAt path = {.bytes hash} := by
  intro made final
  have hkey : ∀ key, ({.field made.2 key} : Set (Slot π)) ⊆ entrySlots made.2 :=
    singleton_subset_entrySlots made.2
  have hmade : Changes doc made.1 {.file path} := hvalid.putObject (.inr rfl)
  have hget : made.1.get (.file path) = some (.map, made.2) := get_putObject hvalid .map
  have hknown : made.1.Known made.2 := known_of_get_file hmade.valid hget
  have hempty : ∀ key, made.1.get (.field made.2 key) = none := by
    intro key
    rw [get_eq_none_iff hmade.valid, hmade.live _ (field_not_mem_file made.2 key path)]
    refine live_eq_empty_of_not_known hvalid (fun ⟨op, hop, hid, _⟩ => ?_) key
    exact absurd hid (Nat.ne_of_lt (OpSet.lt_freshId actor hop))
  let linked := made.1.put actor (.field made.2 .url) (.str (nested.automergeUrl handle))
  have hurl : Changes made.1 linked {.field made.2 .url} := hmade.valid.put hknown
  have hhash : Changes linked final {.field made.2 .hash} := hurl.valid.put (hurl.known hknown)
  have hall : Changes made.1 final (entrySlots made.2) :=
    (hurl.mono (hkey _)).trans (hhash.mono (hkey _))
  have hfile : final.get (.file path) = some (.map, made.2) := by
    rw [hall.get (file_not_mem_entrySlots path made.2), hget]
  have hstructured : final.get (.field made.2 .structuredContent) = none := by
    rw [hhash.get (field_not_mem _ .structuredContent nofun),
      hurl.get (field_not_mem _ .structuredContent nofun), hempty]
  have hcontent : final.get (.field made.2 .content) = none := by
    rw [hhash.get (field_not_mem _ .content nofun), hurl.get (field_not_mem _ .content nofun),
      hempty]
  obtain ⟨id, hlink⟩ := get_of_getAll
    (getAll_put hmade.valid (.str (nested.automergeUrl handle)) : linked.getAll _ = _) hurl.valid
  have hlink : final.get (.field made.2 .url) = some (.str (nested.automergeUrl handle), id) :=
    (hhash.get (field_not_mem _ .url nofun)).trans hlink
  refine ⟨hmade, hget, hall, ?_, ?_⟩
  · simp [contentAt, hydrateContentAt, getString, hfile, hstructured, hcontent, hlink]
  · simp only [hashesAt, hfile]
    exact getAll_put hurl.valid _

omit [DecidableEq δ] in
/-- The map that a path shows. -/
theorem getTyped_file [DecidableEq δ] (hvalid : doc.Valid) :
    doc.getTyped (.file path) .map = (doc.get (.file path)).map Prod.snd := by
  rw [getTyped]
  cases hget : doc.get (.file path) with
  | none => rfl
  | some found =>
      obtain ⟨value, entry⟩ := found
      obtain rfl := eq_map_of_get_file hvalid hget
      rfl

omit [DecidableEq δ] in
theorem getObjId_file (hvalid : doc.Valid) :
    doc.getObjId (.file path) = (doc.get (.file path)).map Prod.snd := by
  rw [getObjId]
  cases hget : doc.get (.file path) with
  | none => rfl
  | some found =>
      obtain ⟨value, entry⟩ := found
      obtain rfl := eq_map_of_get_file hvalid hget
      rfl

/-- The entry that is found at a path, or made there. -/
theorem entry_objectOrNew (hvalid : doc.Valid) (path : π) :
    let found := doc.objectOrNew actor (.file path) .map ((doc.get (.file path)).map Prod.snd)
    Changes doc found.1 {.file path} ∧ found.1.get (.file path) = some (.map, found.2) := by
  have hfits : doc.Fits (.file path) (some .map) := .inr rfl
  refine ⟨hvalid.objectOrNew hfits _, get_objectOrNew hvalid fun object hobject => ?_⟩
  rw [← getTyped_file hvalid] at hobject
  exact get_of_getTyped hobject

omit [DecidableEq δ] in
theorem changeTypeOf_eq_created_iff (hvalid : doc.Valid) :
    changeTypeOf ((doc.get (.file path)).map Prod.snd) = .created ↔
      doc.contentAt nested path = none := by
  rw [contentAt_eq_none_iff nested hvalid]
  cases doc.get (.file path) <;> simp [changeTypeOf]

theorem changeTypeOf_ne_deleted (found : Option ℕ) : changeTypeOf found ≠ .deleted := by
  cases found <;> nofun

omit [DecidableEq δ] in
/-- Keys of one entry change, and that entry is what the path then shows. -/
theorem Commits.of_entry {made : BranchDoc π δ τ σ} {commit : CommitEntry π δ ω ι}
    (hvalid : doc.Valid) (hkept : ¬ commit.IsDelete)
    (hmade : Changes doc made {.file commit.path})
    (hget : made.get (.file commit.path) = some (.map, entry))
    (hchanges : Changes made doc' (entrySlots entry))
    (hcontent : doc'.contentAt nested commit.path = commit.committed)
    (hhashes : doc'.hashesAt commit.path = commit.hashes) :
    Commits nested doc doc' commit
      ⟨commit.path, changeTypeOf ((doc.get (.file commit.path)).map Prod.snd)⟩ where
  valid := hchanges.valid
  content := hcontent
  hashes := hhashes
  others path hne := by
    have hfirst := hmade.others_of_file nested hvalid hne
    have hsecond := hchanges.others_of_entry nested hmade.valid hget hne
    exact ⟨hsecond.1.trans hfirst.1, hsecond.2.trans hfirst.2⟩
  path := rfl
  deleted := ⟨fun heq => absurd heq (changeTypeOf_ne_deleted _), fun h => absurd h hkept⟩
  created := by
    rw [changeTypeOf_eq_created_iff nested hvalid]
    exact ⟨fun h => ⟨hkept, h⟩, And.right⟩

/-- **What is committed at a path is what is read there, and no other path reads
differently.** -/
theorem Valid.commitEntry (hvalid : doc.Valid) (hnested : nested.HydratesBack)
    (commit : CommitEntry π δ ω ι) :
    Commits nested doc (doc.commitEntry actor nested commit).1 commit
      (doc.commitEntry actor nested commit).2 := by
  cases commit with
  | binary path handle hash =>
      obtain ⟨hmade, hget, hchanges, hcontent, hhash⟩ :=
        commitBinary actor nested hvalid path handle hash
      have hcommits : Commits nested doc _ (.binary path handle hash) _ :=
        .of_entry nested hvalid id hmade hget hchanges hcontent hhash
      exact hcommits
  | text path content hash =>
      obtain ⟨hmade, hget⟩ := entry_objectOrNew actor hvalid path
      obtain ⟨hchanges, hcontent, hhash⟩ :=
        commitText actor nested hmade.valid hget content hash
      have hcommits : Commits nested doc _ (.text path content hash) _ :=
        .of_entry nested hvalid id hmade hget hchanges hcontent hhash
      rw [BranchDoc.commitEntry, getTyped_file hvalid]
      exact hcommits
  | scene path scene hash =>
      obtain ⟨hmade, hget⟩ := entry_objectOrNew actor hvalid path
      obtain ⟨hchanges, hcontent, hhash⟩ :=
        commitScene actor nested hmade.valid hget scene hash
      have hcommits : Commits nested doc _ (.scene path scene hash) _ :=
        .of_entry nested hvalid id hmade hget hchanges
          (hcontent fun object => hnested object scene) hhash
      rw [BranchDoc.commitEntry, getObjId_file hvalid]
      exact hcommits
  | delete path =>
      have hdelete : Changes doc (doc.delete actor (.file path)) {.file path} :=
        hvalid.delete (.inl rfl)
      have hget := get_delete hdelete.valid
      refine ⟨hdelete.valid, ?_, ?_, fun other hne => hdelete.others_of_file nested hvalid hne,
        rfl, ⟨fun _ => trivial, fun _ => rfl⟩, ⟨nofun, fun h => absurd trivial h.1⟩⟩
      · exact (contentAt_eq_none_iff nested hdelete.valid).mpr hget
      · change (doc.delete actor (.file path)).hashesAt path = 0
        rw [hashesAt, hget]

/-- A commit keeps the document valid, whatever hydration makes of a scene. -/
theorem Valid.of_commitEntry (hvalid : doc.Valid) (commit : CommitEntry π δ ω ι) :
    (doc.commitEntry actor nested commit).1.Valid := by
  cases commit with
  | binary path handle hash =>
      exact (commitBinary actor nested hvalid path handle hash).2.2.1.valid
  | text path content hash =>
      obtain ⟨hmade, hget⟩ := entry_objectOrNew actor hvalid path
      rw [BranchDoc.commitEntry, getTyped_file hvalid]
      exact (commitText actor nested hmade.valid hget content hash).1.valid
  | scene path scene hash =>
      obtain ⟨hmade, hget⟩ := entry_objectOrNew actor hvalid path
      rw [BranchDoc.commitEntry, getObjId_file hvalid]
      exact (commitScene actor nested hmade.valid hget scene hash).1.valid
  | delete path =>
      have hfits : doc.Fits (.file path) none := .inl rfl
      exact (hvalid.delete hfits).valid

theorem Valid.of_commitEntries (hvalid : doc.Valid) (commits : List (CommitEntry π δ ω ι)) :
    (doc.commitEntries actor nested commits).1.Valid := by
  induction commits generalizing doc with
  | nil => exact hvalid
  | cons commit commits ih => exact ih (hvalid.of_commitEntry actor nested commit)

/-! ## All entries -/

/-- One item is recorded for an entry, with the kind of change that it is. -/
def Records (nested : Nested τ σ ω ι) (doc : BranchDoc π δ τ σ) (commit : CommitEntry π δ ω ι)
    (change : ChangedFile π) : Prop :=
  change.path = commit.path ∧ (change.changeType = .deleted ↔ commit.IsDelete) ∧
    (change.changeType = .created ↔ ¬ commit.IsDelete ∧ doc.contentAt nested commit.path = none)

/-- **Entries with distinct paths are all read back, every other path reads as before, and
one change is recorded for each entry.** -/
theorem Valid.commitEntries (hvalid : doc.Valid) (hnested : nested.HydratesBack)
    {commits : List (CommitEntry π δ ω ι)}
    (hdistinct : (commits.map CommitEntry.path).Nodup) :
    (∀ commit ∈ commits,
      (doc.commitEntries actor nested commits).1.contentAt nested commit.path =
          commit.committed ∧
        (doc.commitEntries actor nested commits).1.hashesAt commit.path = commit.hashes) ∧
    (∀ path ∉ commits.map CommitEntry.path,
      (doc.commitEntries actor nested commits).1.contentAt nested path =
          doc.contentAt nested path ∧
        (doc.commitEntries actor nested commits).1.hashesAt path = doc.hashesAt path) ∧
    List.Forall₂ (Records nested doc) commits (doc.commitEntries actor nested commits).2 := by
  induction commits generalizing doc with
  | nil => exact ⟨nofun, fun _ _ => ⟨rfl, rfl⟩, .nil⟩
  | cons commit commits ih =>
      obtain ⟨hfresh, hdistinct⟩ := List.nodup_cons.mp hdistinct
      have hfirst := hvalid.commitEntry actor nested hnested commit
      obtain ⟨hread, hothers, hrecords⟩ := ih hfirst.valid hdistinct
      refine ⟨fun other hother => ?_, fun path hpath => ?_, .cons ?_ ?_⟩
      · rcases List.mem_cons.mp hother with rfl | hother
        · have hkept := hothers other.path hfresh
          exact ⟨hkept.1.trans hfirst.content, hkept.2.trans hfirst.hashes⟩
        · exact hread other hother
      · have hkept := hothers path fun hmem => hpath (List.mem_cons_of_mem _ hmem)
        have hsame := hfirst.others path fun heq => hpath (heq ▸ List.mem_cons_self)
        exact ⟨hkept.1.trans hsame.1, hkept.2.trans hsame.2⟩
      · exact ⟨hfirst.path, hfirst.deleted, hfirst.created⟩
      · -- the changes of the other paths are told from the document before all of them
        have hothers : ∀ other ∈ commits, other.path ≠ commit.path := fun other hother heq =>
          hfresh (heq ▸ List.mem_map_of_mem hother)
        refine ((List.forall₂_and_left _ _).mpr ⟨hothers, hrecords⟩).imp ?_
        intro other change ⟨hne, hpath, hdeleted, hcreated⟩
        rw [(hfirst.others other.path hne).1] at hcreated
        exact ⟨hpath, hdeleted, hcreated⟩

end Entry

end BranchDoc

end Backstitch
