/-
# Stored hashes over whole histories

Clients commit hashed files to a document from before there were hashes, merge, and ask for
hash indexes of any version, which puts hashes into their own copies.  A version is the
document at some heads: what some client had, or the join of two versions.

Every hash was made by one change, and the first version with it is the state of the client
that made it.  The changes of an entry all come with a hash, so if one hash is left in some
version, that version holds in the entry what the first version with the hash held there.
-/

import Backstitch.Document.Rehashes

namespace Backstitch

universe u₁ u₂ u₃ u₄ u₅ u₆

variable {τ : Type u₁} {σ : Type u₂} {ω : Type u₃} {ι : Type u₄} {π : Type u₅} {δ : Type u₆}

/-- The copies of all clients, and all versions that there have been. -/
structure History (actors : ℕ) (π : Type u₅) (δ : Type u₆) (τ : Type u₁) (σ : Type u₂) where
  docs : Fin actors → BranchDoc π δ τ σ
  versions : List (BranchDoc π δ τ σ)

inductive HistoryAction (π : Type u₅) (δ : Type u₆) (ω : Type u₃) (ι : Type u₄) (actors : ℕ)
  | commit (client : Fin actors) (entries : List (CommitEntry π δ ω ι))
  /-- One client receives what another one has. -/
  | merge (into source : Fin actors)
  /-- The heads of two versions are a version too. -/
  | join (first second : ℕ)
  /-- `get_hash_index` of a version, whose paths come in this order. -/
  | getHashIndex (client : Fin actors) (version : ℕ) (paths : List π)

section System

variable {actors : ℕ}

namespace History

/-- A client has a new state. -/
def setDoc (history : History actors π δ τ σ) (client : Fin actors) (doc : BranchDoc π δ τ σ) :
    History actors π δ τ σ :=
  ⟨Function.update history.docs client doc, history.versions ++ [doc]⟩

@[simp]
theorem docs_setDoc (history : History actors π δ τ σ) (client : Fin actors)
    (doc : BranchDoc π δ τ σ) :
    (history.setDoc client doc).docs = Function.update history.docs client doc := rfl

@[simp]
theorem versions_setDoc (history : History actors π δ τ σ) (client : Fin actors)
    (doc : BranchDoc π δ τ σ) :
    (history.setDoc client doc).versions = history.versions ++ [doc] := rfl

variable [DecidableEq π] [DecidableEq δ] [Max τ] [Max σ]

/-- A version whose changes a client does not have is no ref of its branch. -/
def step (env : DocEnv τ σ ω ι π δ) (history : History actors π δ τ σ) :
    HistoryAction π δ ω ι actors → Option (History actors π δ τ σ)
  | .commit client entries =>
      some (history.setDoc client
        ((history.docs client).commitEntries client env.toNested entries).1)
  | .merge into source =>
      some (history.setDoc into ((history.docs into).merge (history.docs source)))
  | .join first second =>
      match history.versions[first]?, history.versions[second]? with
      | some first, some second =>
          some { history with versions := history.versions ++ [first.merge second] }
      | _, _ => none
  | .getHashIndex client version paths =>
      match history.versions[version]? with
      | some ref =>
          if ref.ops ⊆ (history.docs client).ops then
            some (history.setDoc client
              (BranchDoc.reinsertHashes client env ref (history.docs client) paths))
          else none
      | none => none

end History

variable [DecidableEq π] [DecidableEq δ] [Max τ] [Max σ]

/-- A document that has no hashes yet. -/
def BranchDoc.Unhashed (doc : BranchDoc π δ τ σ) : Prop :=
  ∀ op ∈ doc.ops, ∀ entry, op.location ≠ .field entry .hash

/-- The histories of a branch document. -/
def historySystem (env : DocEnv τ σ ω ι π δ) (actors : ℕ) :
    System (History actors π δ τ σ) (HistoryAction π δ ω ι actors) where
  start history := ∃ doc, doc.Valid ∧ doc.Unhashed ∧ history = ⟨fun _ => doc, [doc]⟩
  step := History.step env

end System

/-! ## The first version with a hash -/

section Versions

variable [DecidableEq π] [DecidableEq δ] [SemilatticeSup τ] [SemilatticeSup σ]
  (env : DocEnv τ σ ω ι π δ) {versions : Set (BranchDoc π δ τ σ)}
  {start doc doc' first : BranchDoc π δ τ σ} {op : Op (Slot π) (Value δ)} {entry : ℕ}

/-- The first of some versions with an operation. -/
structure FirstWith (versions : Set (BranchDoc π δ τ σ)) (op : Op (Slot π) (Value δ))
    (first : BranchDoc π δ τ σ) : Prop where
  mem : first ∈ versions
  has : op ∈ first.ops
  extends' : ∀ doc ∈ versions, op ∈ doc.ops → first.Extends doc

/-- What an entry holds in one document is no more than what it holds in the other. -/
def EntryLe (doc doc' : BranchDoc π δ τ σ) (entry : ℕ) : Prop :=
  ∀ key ≠ FieldKey.hash, doc.ops.KnownAt doc'.ops (.field entry key) ∧
    ∀ op ∈ doc.ops.live (.field entry key),
      doc.texts op.id ≤ doc'.texts op.id ∧ doc.scenes op.id ≤ doc'.scenes op.id

/-- What holds of all versions together. -/
structure VersionsKept (start : BranchDoc π δ τ σ) (versions : Set (BranchDoc π δ τ σ)) :
    Prop where
  valid : ∀ doc ∈ versions, doc.Valid
  unique : ∀ doc ∈ versions, ∀ doc' ∈ versions, ∀ op ∈ doc.ops, ∀ op' ∈ doc'.ops,
    op.id = op'.id → op = op'
  fromStart : ∀ doc ∈ versions, start.Extends doc
  grounded : ∀ doc ∈ versions, ∀ op ∈ doc.ops, ∀ entry,
    op.location = .field entry .hash → doc.Grounded op
  /-- Objects that are not there are as they were at the start. -/
  objects : ∀ doc ∈ versions, ∀ id, (∀ op ∈ doc.ops, op.id ≠ id) →
    doc.texts id = start.texts id ∧ doc.scenes id = start.scenes id
  /-- A hash has a first version, in which there is one hash, the right one. -/
  made : ∀ doc ∈ versions, ∀ op ∈ doc.ops, ∀ entry, op.location = .field entry .hash →
    ∃ first, FirstWith versions op first ∧
      (∃ last, first.ops.live (.field entry .hash) = {last}) ∧ first.HashTrue env entry
  /-- What an entry holds was there at the start or came with a hash. -/
  recorded : ∀ doc ∈ versions, ∀ entry bound, start.Extends bound →
    (∀ op ∈ doc.ops, op.location = .field entry .hash →
      ∀ first, FirstWith versions op first → first.Extends bound) → EntryLe doc bound entry

variable {env}

omit [DecidableEq δ] [SemilatticeSup τ] [SemilatticeSup σ] in
/-- One value is one live operation. -/
theorem live_of_getAll {slot : Slot π} {value : Value δ} (hall : doc.getAll slot = {value}) :
    ∃ op, doc.ops.live slot = {op} ∧ op.value = some value := by
  have hmem : value ∈ doc.getAll slot := by
    rw [hall]
    exact Multiset.mem_singleton_self value
  obtain ⟨op, hop, hvalue⟩ := (Multiset.mem_filterMap Op.value _).mp hmem
  refine ⟨op, Finset.eq_singleton_iff_unique_mem.mpr ⟨hop, fun other hother => ?_⟩, hvalue⟩
  by_contra hne
  obtain ⟨value', hvalue'⟩ :=
    Option.ne_none_iff_exists'.mp (OpSet.mem_live_iff.mp hother).2.2.1
  have hpair : other ::ₘ {op} ≤ (doc.ops.live slot).val :=
    (Multiset.cons_le_of_notMem (mt Multiset.mem_singleton.mp hne)).mpr
      ⟨hother, Multiset.singleton_le.mpr hop⟩
  have hcard := Multiset.card_le_card (Multiset.filterMap_le_filterMap Op.value hpair)
  rw [← BranchDoc.getAll, hall, Multiset.filterMap_cons_some _ _ _ hvalue', ← Multiset.cons_zero op,
    Multiset.filterMap_cons_some _ _ _ hvalue] at hcard
  exact absurd hcard (by simp)

namespace VersionsKept

/-- **A hash that is left alone in some version is that of what the entry holds there.** -/
theorem hashTrue (hkept : VersionsKept env start versions) (hdoc : doc ∈ versions) (entry : ℕ) :
    doc.HashTrue env entry := by
  intro hash content hhash hcontent
  obtain ⟨op, hlive, hvalue⟩ := live_of_getAll hhash
  have hop : op ∈ doc.ops.live (.field entry .hash) := by
    rw [hlive]
    exact Finset.mem_singleton_self op
  have hmem := OpSet.mem_of_mem_live hop
  have hwhere := OpSet.location_of_mem_live hop
  obtain ⟨first, hfirst, ⟨last, hlast⟩, htrue⟩ := hkept.made doc hdoc op hmem entry hwhere
  have hback := hfirst.extends' doc hdoc hmem
  -- all other hashes of the entry were known when this one was made
  have hknown : ∀ other ∈ doc.ops, other.location = .field entry .hash →
      ∀ first', FirstWith versions other first' → first'.Extends first := by
    refine OpSet.of_live_eq_singleton (hkept.valid doc hdoc).orderly
      (fun other hother hwhere => (hkept.grounded doc hdoc other hother entry hwhere).1 entry hwhere)
      hlive (fun first' hfirst' => hfirst'.extends' first hfirst.mem hfirst.has) ?_
    intro before hbefore after hafter hwhereBefore hwhereAfter hover hholds first' hfirst'
    obtain ⟨firstAfter, hfirstAfter, -⟩ := hkept.made doc hdoc after hafter entry hwhereAfter
    obtain ⟨found, hfound, -, hid⟩ := (hkept.grounded firstAfter hfirstAfter.mem after
      hfirstAfter.has entry hwhereAfter).2 before.id hover
    obtain rfl := hkept.unique firstAfter hfirstAfter.mem doc hdoc found hfound before hbefore hid
    exact (hfirst'.extends' firstAfter hfirstAfter.mem hfound).trans (hholds firstAfter hfirstAfter)
  have hle := hkept.recorded doc hdoc entry first (hkept.fromStart first hfirst.mem) hknown
  -- so the entry holds the same in both
  have hkeys : ∀ key ≠ FieldKey.hash,
      doc.ops.live (.field entry key) = first.ops.live (.field entry key) :=
    fun key hkey => OpSet.live_eq_of_subset hback.1 (hle key hkey).1
  have hobjects : ∀ key ≠ FieldKey.hash, ∀ op ∈ first.ops.live (.field entry key),
      doc.texts op.id = first.texts op.id ∧ doc.scenes op.id = first.scenes op.id := by
    intro key hkey op hop
    rw [← hkeys key hkey] at hop
    obtain ⟨htext, hscene⟩ := (hle key hkey).2 op hop
    exact ⟨le_antisymm htext (hback.2.1 op.id), le_antisymm hscene (hback.2.2 op.id)⟩
  have hsame : doc.entryContent env entry = first.entryContent env entry := by
    rw [BranchDoc.entryContent, BranchDoc.entryContent, BranchDoc.hydrateEntry_congr env.toNested
      (hkept.valid first hfirst.mem) hkeys hobjects]
  have hhashes : first.getAll (.field entry .hash) = {.bytes hash} := by
    have hop' := OpSet.mem_live_of_subset hback.1 hfirst.has hop
    rw [hlast, Finset.mem_singleton] at hop'
    rw [← hhash, BranchDoc.getAll, BranchDoc.getAll, hlast, hlive, hop']
  exact htrue hash content hhashes (hsame ▸ hcontent)

omit [DecidableEq π] [DecidableEq δ] in
/-- A version that comes later than the first one with an operation leaves it the first. -/
theorem firstWith_insert (hfirst : FirstWith versions op first)
    (hlater : op ∈ doc.ops → first.Extends doc) : FirstWith (insert doc versions) op first where
  mem := Set.mem_insert_of_mem doc hfirst.mem
  has := hfirst.has
  extends' := by
    intro other hother hop
    rcases Set.mem_insert_iff.mp hother with rfl | hother
    · exact hlater hop
    · exact hfirst.extends' other hother hop

/-- **A client that leaves each entry alone or gives it the right hash makes a version.** -/
theorem insert_of_rehashes (hkept : VersionsKept env start versions) (hdoc : doc ∈ versions)
    (hrehashes : doc.Rehashes env doc')
    (hfresh : ∀ op ∈ doc'.ops, op ∉ doc.ops → ∀ other ∈ versions, ∀ op' ∈ other.ops,
      op'.id ≠ op.id) : VersionsKept env start (insert doc' versions) := by
  -- an operation that was there before is one of the version that was changed
  have hold : ∀ op ∈ doc'.ops, ∀ other ∈ versions, op ∈ other.ops → op ∈ doc.ops := by
    intro op hop other hother hmem
    by_contra hnew
    exact hfresh op hop hnew other hother op hmem rfl
  have hfirst : ∀ {op first}, FirstWith versions op first →
      FirstWith (insert doc' versions) op first :=
    fun {op first} hfirst => firstWith_insert hfirst fun hop =>
      (hfirst.extends' doc hdoc (hold op hop first hfirst.mem hfirst.has)).trans
        hrehashes.extends'
  have hnewFirst : ∀ op ∈ doc'.ops, op ∉ doc.ops → FirstWith (insert doc' versions) op doc' := by
    refine fun op hop hnew => ⟨Set.mem_insert doc' versions, hop, fun other hother hmem => ?_⟩
    rcases Set.mem_insert_iff.mp hother with rfl | hother
    · exact ⟨Finset.Subset.refl _, fun _ => le_rfl, fun _ => le_rfl⟩
    · exact absurd rfl (hfresh op hop hnew other hother op hmem)
  constructor
  · intro other hother
    rcases Set.mem_insert_iff.mp hother with rfl | hother
    · exact hrehashes.valid
    · exact hkept.valid other hother
  · -- ids stay unique, because what is new has new ids
    have hcross : ∀ op ∈ doc'.ops, ∀ other ∈ versions, ∀ op' ∈ other.ops, op.id = op'.id →
        op = op' := by
      intro op hop other hother op' hop' hid
      by_cases hmem : op ∈ doc.ops
      · exact hkept.unique doc hdoc other hother op hmem op' hop' hid
      · exact absurd hid.symm (hfresh op hop hmem other hother op' hop')
    intro first hfirst second hsecond op hop op' hop' hid
    rcases Set.mem_insert_iff.mp hfirst with rfl | hfirst' <;>
      rcases Set.mem_insert_iff.mp hsecond with rfl | hsecond'
    · exact hrehashes.valid.orderly.uniqueIds op hop op' hop' hid
    · exact hcross op hop second hsecond' op' hop' hid
    · exact (hcross op' hop' first hfirst' op hop hid.symm).symm
    · exact hkept.unique first hfirst' second hsecond' op hop op' hop' hid
  · intro other hother
    rcases Set.mem_insert_iff.mp hother with rfl | hother
    · exact (hkept.fromStart doc hdoc).trans hrehashes.extends'
    · exact hkept.fromStart other hother
  · intro other hother op hop entry hwhere
    rcases Set.mem_insert_iff.mp hother with rfl | hother
    · rcases hrehashes.new op hop with hop | hgrounded
      · exact (hkept.grounded doc hdoc op hop entry hwhere).mono hrehashes.extends'.1
      · exact hgrounded
    · exact hkept.grounded other hother op hop entry hwhere
  · intro other hother id hid
    rcases Set.mem_insert_iff.mp hother with rfl | hother
    · obtain ⟨htext, hscene⟩ := hrehashes.objects id hid
      obtain ⟨htext', hscene'⟩ := hkept.objects doc hdoc id fun op hop =>
        hid op (hrehashes.extends'.1 hop)
      exact ⟨htext.trans htext', hscene.trans hscene'⟩
    · exact hkept.objects other hother id hid
  · intro other hother op hop entry hwhere
    have hmade : ∀ other ∈ versions, op ∈ other.ops → ∃ first,
        FirstWith (insert doc' versions) op first ∧
          (∃ last, first.ops.live (.field entry .hash) = {last}) ∧ first.HashTrue env entry := by
      intro other hother hop
      obtain ⟨first, hfirst', hrest⟩ := hkept.made other hother op hop entry hwhere
      exact ⟨first, hfirst hfirst', hrest⟩
    rcases Set.mem_insert_iff.mp hother with rfl | hother
    · by_cases hmem : op ∈ doc.ops
      · exact hmade doc hdoc hmem
      · rcases hrehashes.entries entry with hsame | ⟨⟨last, -, hlast⟩, htrue⟩
        · exact absurd (hsame.known .hash op hop hwhere) hmem
        · exact ⟨other, hnewFirst op hop hmem, ⟨last, hlast⟩, htrue⟩
    · exact hmade other hother hop
  · intro other hother entry bound hbound hhashes
    rcases Set.mem_insert_iff.mp hother with rfl | hother
    · rcases hrehashes.entries entry with hsame | ⟨⟨last, hnew, hlast⟩, -⟩
      · have hle := hkept.recorded doc hdoc entry bound hbound fun op hop hwhere first hfirst' =>
          hhashes op (hrehashes.extends'.1 hop) hwhere first (hfirst hfirst')
        intro key hkey
        refine ⟨fun op hop hwhere => (hle key hkey).1 op (hsame.known key op hop hwhere) hwhere,
          fun op hop => ?_⟩
        rw [hsame.live hrehashes.extends'.1] at hop
        obtain ⟨htext, hscene⟩ := hsame.objects key op hop
        rw [htext, hscene]
        exact (hle key hkey).2 op hop
      · have hlive : last ∈ other.ops.live (.field entry .hash) := by
          rw [hlast]
          exact Finset.mem_singleton_self last
        have hmem := OpSet.mem_of_mem_live hlive
        have hextends := hhashes last hmem (OpSet.location_of_mem_live hlive) other
          (hnewFirst last hmem hnew)
        exact fun key _ => ⟨fun op hop _ => hextends.1 hop,
          fun op _ => ⟨hextends.2.1 op.id, hextends.2.2 op.id⟩⟩
    · exact hkept.recorded other hother entry bound hbound fun op hop hwhere first hfirst' =>
        hhashes op hop hwhere first (hfirst hfirst')

/-- A merge extends what is merged. -/
theorem extends_merge (doc other : BranchDoc π δ τ σ) :
    doc.Extends (doc.merge other) ∧ other.Extends (doc.merge other) :=
  ⟨⟨Finset.subset_union_left, fun _ => le_sup_left, fun _ => le_sup_left⟩,
    Finset.subset_union_right, fun _ => le_sup_right, fun _ => le_sup_right⟩

/-- What holds an entry of both sides holds that of their merge. -/
theorem entryLe_merge (hkept : VersionsKept env start versions) (hdoc : doc ∈ versions)
    (hdoc' : doc' ∈ versions) {bound : BranchDoc π δ τ σ} (hbound : start.Extends bound)
    (hle : EntryLe doc bound entry) (hle' : EntryLe doc' bound entry) :
    EntryLe (doc.merge doc') bound entry := by
  -- a side without an object has it as it was at the start
  have hside : ∀ side ∈ versions, EntryLe side bound entry → ∀ key ≠ FieldKey.hash,
      ∀ op ∈ (doc.merge doc').ops.live (.field entry key), side.ops ⊆ (doc.merge doc').ops →
      side.texts op.id ≤ bound.texts op.id ∧ side.scenes op.id ≤ bound.scenes op.id := by
    intro side hmem hle key hkey op hop hsubset
    by_cases hside : op ∈ side.ops
    · exact (hle key hkey).2 op (OpSet.mem_live_of_subset hsubset hside hop)
    · have hnone : ∀ other ∈ side.ops, other.id ≠ op.id := by
        intro other hother hid
        have heq : other = op := by
          rcases Finset.mem_union.mp (OpSet.mem_of_mem_live hop) with hop | hop
          · exact hkept.unique side hmem doc hdoc other hother op hop hid
          · exact hkept.unique side hmem doc' hdoc' other hother op hop hid
        exact hside (heq ▸ hother)
      obtain ⟨htext, hscene⟩ := hkept.objects side hmem op.id hnone
      rw [htext, hscene]
      exact ⟨hbound.2.1 op.id, hbound.2.2 op.id⟩
  intro key hkey
  refine ⟨fun op hop hwhere => ?_, fun op hop => ?_⟩
  · rcases Finset.mem_union.mp hop with hop | hop
    · exact (hle key hkey).1 op hop hwhere
    · exact (hle' key hkey).1 op hop hwhere
  · obtain ⟨htext, hscene⟩ := hside doc hdoc hle key hkey op hop Finset.subset_union_left
    obtain ⟨htext', hscene'⟩ := hside doc' hdoc' hle' key hkey op hop Finset.subset_union_right
    exact ⟨sup_le htext htext', sup_le hscene hscene'⟩

/-- **The merge of two versions is a version.** -/
theorem insert_merge (hkept : VersionsKept env start versions) (hdoc : doc ∈ versions)
    (hdoc' : doc' ∈ versions) : VersionsKept env start (insert (doc.merge doc') versions) := by
  obtain ⟨hleft, hright⟩ := extends_merge doc doc'
  have hside : ∀ op ∈ (doc.merge doc').ops, ∃ side ∈ versions, op ∈ side.ops ∧
      side.Extends (doc.merge doc') := by
    intro op hop
    rcases Finset.mem_union.mp hop with hop | hop
    · exact ⟨doc, hdoc, hop, hleft⟩
    · exact ⟨doc', hdoc', hop, hright⟩
  have hfirst : ∀ {op first}, FirstWith versions op first →
      FirstWith (insert (doc.merge doc') versions) op first := by
    refine fun {op first} hfirst => firstWith_insert hfirst fun hop => ?_
    obtain ⟨side, hmem, hop, hextends⟩ := hside op hop
    exact (hfirst.extends' side hmem hop).trans hextends
  -- every operation of a version is one of an old version
  have hold : ∀ other ∈ insert (doc.merge doc') versions, ∀ op ∈ other.ops, ∃ side ∈ versions,
      op ∈ side.ops ∧ side.ops ⊆ other.ops := by
    intro other hother op hop
    rcases Set.mem_insert_iff.mp hother with rfl | hother
    · obtain ⟨side, hmem, hop, hextends⟩ := hside op hop
      exact ⟨side, hmem, hop, hextends.1⟩
    · exact ⟨other, hother, hop, Finset.Subset.refl _⟩
  constructor
  · intro other hother
    rcases Set.mem_insert_iff.mp hother with rfl | hother
    · exact (hkept.valid doc hdoc).merge (hkept.valid doc' hdoc')
        (hkept.unique doc hdoc doc' hdoc')
    · exact hkept.valid other hother
  · intro first hfirst second hsecond op hop op' hop' hid
    obtain ⟨side, hmem, hop, -⟩ := hold first hfirst op hop
    obtain ⟨side', hmem', hop', -⟩ := hold second hsecond op' hop'
    exact hkept.unique side hmem side' hmem' op hop op' hop' hid
  · intro other hother
    rcases Set.mem_insert_iff.mp hother with rfl | hother
    · exact (hkept.fromStart doc hdoc).trans hleft
    · exact hkept.fromStart other hother
  · intro other hother op hop entry hwhere
    obtain ⟨side, hmem, hop, hsubset⟩ := hold other hother op hop
    exact (hkept.grounded side hmem op hop entry hwhere).mono hsubset
  · intro other hother id hid
    rcases Set.mem_insert_iff.mp hother with rfl | hother
    · obtain ⟨htext, hscene⟩ := hkept.objects doc hdoc id fun op hop => hid op (hleft.1 hop)
      obtain ⟨htext', hscene'⟩ := hkept.objects doc' hdoc' id fun op hop => hid op (hright.1 hop)
      exact ⟨by simp only [BranchDoc.merge, htext, htext', sup_idem],
        by simp only [BranchDoc.merge, hscene, hscene', sup_idem]⟩
    · exact hkept.objects other hother id hid
  · intro other hother op hop entry hwhere
    obtain ⟨side, hmem, hop, -⟩ := hold other hother op hop
    obtain ⟨first, hfirst', hrest⟩ := hkept.made side hmem op hop entry hwhere
    exact ⟨first, hfirst hfirst', hrest⟩
  · intro other hother entry bound hbound hhashes
    have hrecorded : ∀ side ∈ versions, side.ops ⊆ other.ops → EntryLe side bound entry :=
      fun side hmem hsubset => hkept.recorded side hmem entry bound hbound
        fun op hop hwhere first hfirst' => hhashes op (hsubset hop) hwhere first (hfirst hfirst')
    rcases Set.mem_insert_iff.mp hother with rfl | hother
    · exact hkept.entryLe_merge hdoc hdoc' hbound (hrecorded doc hdoc hleft.1)
        (hrecorded doc' hdoc' hright.1)
    · exact hrecorded other hother (Finset.Subset.refl _)

end VersionsKept

end Versions

/-! ## Histories -/

section Histories

variable [DecidableEq π] [DecidableEq δ] [SemilatticeSup τ] [SemilatticeSup σ] {actors : ℕ}
  {env : DocEnv τ σ ω ι π δ} {start doc : BranchDoc π δ τ σ}
  {history : History actors π δ τ σ} {client : Fin actors}

/-- What holds in every history. -/
structure HistoryKept (env : DocEnv τ σ ω ι π δ) (start : BranchDoc π δ τ σ)
    (history : History actors π δ τ σ) : Prop where
  versions : VersionsKept env start {doc | doc ∈ history.versions}
  docs : DocsKept history.docs
  latest : ∀ client, history.docs client ∈ history.versions
  known : ∀ doc ∈ history.versions, ∀ op ∈ doc.ops,
    op ∈ start.ops ∨ ∃ client, op ∈ (history.docs client).ops

omit [DecidableEq δ] in
theorem historyKept_of_start (hvalid : start.Valid) (hunhashed : start.Unhashed) :
    HistoryKept env start (⟨fun _ => start, [start]⟩ : History actors π δ τ σ) := by
  have hnone : ∀ {op : Op (Slot π) (Value δ)} {entry}, op ∈ start.ops →
      op.location ≠ .field entry .hash := fun {op entry} hop => hunhashed op hop entry
  refine ⟨⟨?_, ?_, ?_, ?_, ?_, ?_, ?_⟩, docsKept_of_same hvalid,
    fun _ => List.mem_singleton_self start, ?_⟩
  · intro doc hdoc
    rwa [List.mem_singleton.mp hdoc]
  · intro doc hdoc doc' hdoc'
    rw [List.mem_singleton.mp hdoc, List.mem_singleton.mp hdoc']
    exact hvalid.orderly.uniqueIds
  · intro doc hdoc
    rw [List.mem_singleton.mp hdoc]
    exact ⟨Finset.Subset.refl _, fun _ => le_rfl, fun _ => le_rfl⟩
  · intro doc hdoc op hop entry hwhere
    rw [List.mem_singleton.mp hdoc] at hop
    exact absurd hwhere (hnone hop)
  · intro doc hdoc id _
    rw [List.mem_singleton.mp hdoc]
    exact ⟨rfl, rfl⟩
  · intro doc hdoc op hop entry hwhere
    rw [List.mem_singleton.mp hdoc] at hop
    exact absurd hwhere (hnone hop)
  · intro doc hdoc entry bound hbound _ key _
    rw [List.mem_singleton.mp hdoc]
    exact ⟨fun op hop _ => hbound.1 hop, fun op _ => ⟨hbound.2.1 op.id, hbound.2.2 op.id⟩⟩
  · intro doc hdoc op hop
    rw [List.mem_singleton.mp hdoc] at hop
    exact .inl hop

namespace HistoryKept

omit [DecidableEq π] [DecidableEq δ] [SemilatticeSup τ] [SemilatticeSup σ] in
theorem setOf_append (versions : List (BranchDoc π δ τ σ)) :
    {other | other ∈ versions ++ [doc]} = insert doc {other | other ∈ versions} := by
  ext other
  rw [Set.mem_ofPred_eq, List.mem_append, List.mem_singleton, or_comm]
  rfl

omit [DecidableEq δ] in
/-- A client that extends its copy by a version keeps it. -/
theorem setDoc (hkept : HistoryKept env start history)
    (hversions : VersionsKept env start (insert doc {other | other ∈ history.versions}))
    (hdocs : DocsKept (Function.update history.docs client doc))
    (hsubset : (history.docs client).ops ⊆ doc.ops) :
    HistoryKept env start (history.setDoc client doc) where
  versions := by
    rw [History.versions_setDoc, setOf_append]
    exact hversions
  docs := hdocs
  latest other := by
    rw [History.docs_setDoc, History.versions_setDoc]
    by_cases heq : other = client
    · rw [heq, Function.update_self]
      exact List.mem_append_right _ (List.mem_singleton_self doc)
    · rw [Function.update_of_ne heq]
      exact List.mem_append_left _ (hkept.latest other)
  known other hother op hop := by
    rw [History.versions_setDoc] at hother
    rw [History.docs_setDoc]
    rcases List.mem_append.mp hother with hother | hother
    · refine (hkept.known other hother op hop).imp_right fun ⟨owner, howner⟩ => ⟨owner, ?_⟩
      by_cases heq : owner = client
      · rw [heq, Function.update_self]
        exact hsubset (heq ▸ howner)
      · rwa [Function.update_of_ne heq]
    · rw [List.mem_singleton.mp hother] at hop
      exact .inr ⟨client, by rwa [Function.update_self]⟩

/-- A client that writes new operations, and leaves each entry alone or gives it the right
hash, keeps it. -/
theorem write (hkept : HistoryKept env start history)
    {allowed : OpSet (Slot π) (Value δ) → Slot π → Option (Value δ) → Prop}
    (hwritten : OpSet.WrittenBy client allowed (history.docs client).ops doc.ops)
    (hrehashes : (history.docs client).Rehashes env doc) :
    HistoryKept env start (history.setDoc client doc) := by
  have hnew := hwritten.written hkept.docs.owned
  refine hkept.setDoc (hkept.versions.insert_of_rehashes (hkept.latest client) hrehashes ?_)
    (hkept.docs.write hwritten hrehashes.valid) hrehashes.extends'.1
  intro op hop hnot other hother op' hop' hid
  refine hnew.not_used hop hnot ?_
  rcases hkept.known other hother op' hop' with hstart | ⟨owner, howner⟩
  · have hclient := hkept.versions.fromStart _ (hkept.latest client)
    exact ⟨client, op', hclient.1 hstart, hid⟩
  · exact ⟨owner, op', howner, hid⟩

/-- A join of two versions keeps it. -/
theorem join (hkept : HistoryKept env start history) {first second : BranchDoc π δ τ σ}
    (hfirst : first ∈ history.versions) (hsecond : second ∈ history.versions) :
    HistoryKept env start
      { history with versions := history.versions ++ [first.merge second] } where
  versions := by
    rw [setOf_append]
    exact hkept.versions.insert_merge hfirst hsecond
  docs := hkept.docs
  latest client := List.mem_append_left _ (hkept.latest client)
  known other hother op hop := by
    rcases List.mem_append.mp hother with hother | hother
    · exact hkept.known other hother op hop
    · rw [List.mem_singleton.mp hother] at hop
      rcases Finset.mem_union.mp hop with hop | hop
      · exact hkept.known first hfirst op hop
      · exact hkept.known second hsecond op hop

end HistoryKept

/-- Files are committed with the hashes of their content. -/
def HashedAction (env : DocEnv τ σ ω ι π δ) : HistoryAction π δ ω ι actors → Prop
  | .commit _ entries => ∀ commit ∈ entries, BranchDoc.HashedBy env commit
  | _ => True

/-- No hash is left beside another content than its own. -/
def KeepsHistory (env : DocEnv τ σ ω ι π δ) (history : History actors π δ τ σ) :
    HistoryAction π δ ω ι actors → Prop
  | .commit client entries =>
      (history.docs client).KeepsHashes client env.toNested entries
  | .getHashIndex client version paths => ∀ ref, history.versions[version]? = some ref →
      BranchDoc.PutsBackTruly env ref (history.docs client) paths
  | .merge _ _ | .join _ _ => True

/-- **Each step keeps it.** -/
theorem HistoryKept.step (hgrows : env.Grows) (hkept : HistoryKept env start history)
    {action : HistoryAction π δ ω ι actors} (hhashed : HashedAction env action)
    (hkeeps : KeepsHistory env history action) {next : History actors π δ τ σ}
    (hstep : history.step env action = some next) : HistoryKept env start next := by
  have hvalid := fun client => hkept.docs.valid client
  cases action with
  | commit client entries =>
      cases hstep
      exact hkept.write (BranchDoc.written_commitEntries client env.toNested (hvalid client) False
        entries False.elim) (BranchDoc.rehashes_commitEntries client (hvalid client) hgrows hhashed
          hkeeps)
  | merge into source =>
      cases hstep
      exact hkept.setDoc (hkept.versions.insert_merge (hkept.latest into) (hkept.latest source))
        (hkept.docs.merge into source) Finset.subset_union_left
  | join first second =>
      rw [History.step] at hstep
      split at hstep
      · rename_i hfirst hsecond
        cases hstep
        exact hkept.join (List.mem_of_getElem? hfirst) (List.mem_of_getElem? hsecond)
      · nomatch hstep
  | getHashIndex client version paths =>
      rw [History.step] at hstep
      split at hstep
      · rename_i ref href
        split at hstep
        · rename_i hsubset
          cases hstep
          have hrefValid := hkept.versions.valid ref (List.mem_of_getElem? href)
          exact hkept.write (BranchDoc.written_reinsertHashes client env .start paths)
            (BranchDoc.rehashes_reinsertHashes client hrefValid (hvalid client) hsubset
              (hkeeps ref href))
        · nomatch hstep
      · nomatch hstep

/-- What is stored and what the index says of every file that can be read at a version. -/
def HashesTrue (env : DocEnv τ σ ω ι π δ) (doc : BranchDoc π δ τ σ) : Prop :=
  ∀ path content, doc.getFileAtRef env path = some content →
    (∀ hash, doc.storedHash path = some hash → hash = env.toHash content) ∧
      (env.shouldIgnore path = false → doc.getHashIndex env path = some (env.toHash content))

omit [DecidableEq δ] [SemilatticeSup τ] [SemilatticeSup σ] in
/-- True hashes of the entries are true hashes of the paths. -/
theorem hashesTrue_of_hashTrue
    (htrue : ∀ entry, doc.HashTrue env entry) : HashesTrue env doc := by
  intro path content hcontent
  have hstored : ∀ hash, doc.storedHash path = some hash → hash = env.toHash content := by
    intro hash hstored
    rw [BranchDoc.storedHash] at hstored
    split at hstored
    · rename_i found hhash
      cases hstored
      rw [OpSet.only_eq_some_iff, BranchDoc.hashesAt] at hhash
      split at hhash
      · rename_i entry hget
        rw [BranchDoc.getFileAtRef_eq env hget] at hcontent
        exact (htrue entry hash content hhash hcontent).symm
      · exact absurd hhash (Multiset.zero_ne_singleton _)
    · cases hstored
  refine ⟨hstored, fun hvisible => ?_⟩
  rw [BranchDoc.getHashIndex, hvisible]
  cases hhash : doc.storedHash path with
  | some hash => exact congrArg some (hstored hash hhash)
  | none =>
      rw [hcontent]
      rfl

/-- **Where every step keeps the hashes right, a stored hash that is the only one is that of
the content, at every version, and so is the hash in the index.** -/
theorem hashesTrue_of_reachable (hgrows : env.Grows)
    (hreach : (historySystem env actors).Reachable
      (fun history action => HashedAction env action ∧ KeepsHistory env history action) history)
    (hdoc : doc ∈ history.versions) : HashesTrue env doc := by
  let kept (history : History actors π δ τ σ) : Prop := ∃ start, HistoryKept env start history
  have hkept : kept history := by
    apply hreach.invariant
    · intro history ⟨start, hvalid, hunhashed, hstart⟩
      exact ⟨start, hstart ▸ historyKept_of_start hvalid hunhashed⟩
    · intro history action next ⟨start, hkept⟩ ⟨hhashed, hkeeps⟩ hstep
      exact ⟨start, hkept.step hgrows hhashed hkeeps hstep⟩
  obtain ⟨start, hkept⟩ := hkept
  exact hashesTrue_of_hashTrue (hkept.versions.hashTrue hdoc)

end Histories

/-! ## A document from before there were hashes -/

theorem unhashed_unhashedTexts : (unhashedTexts ["a".toList]).Unhashed := by
  have hwhere : ∀ op ∈ (unhashedTexts ["a".toList]).ops,
      op.location = .file [0] ∨ op.location = .field 1 .content := by decide +kernel
  intro op hop entry heq
  rcases hwhere op hop with hfile | hcontent
  · rw [hfile] at heq
    nomatch heq
  · rw [hcontent] at heq
    nomatch heq

/-- Two copies of a document with one text, which has no hash. -/
def unhashedHistory (actors : ℕ) : History actors (List ℕ) ℕ (ℕ ×ₗ List Char) (ℕ ×ₗ ℕ) :=
  ⟨fun _ => unhashedTexts ["a".toList], [unhashedTexts ["a".toList]]⟩

theorem start_unhashedHistory (actors : ℕ) :
    (historySystem hashedBySize actors).start (unhashedHistory actors) :=
  ⟨unhashedTexts ["a".toList], unhashedTexts_valid _, unhashed_unhashedTexts, rfl⟩

/-- The missing hash is put back where it was missing, a file comes beside, and the other
client receives both. -/
def hashedRun : List (HistoryAction (List ℕ) ℕ ℕ ℕ 2) :=
  [.getHashIndex 0 0 [[0]], .commit 0 [.text [1] "bb".toList 2], .merge 1 0]

theorem hashesTrue_hashedRun :
    HashesTrue hashedBySize
      (((historySystem hashedBySize 2).after (unhashedHistory 2) hashedRun).docs 1) := by
  let history := (historySystem hashedBySize 2).after (unhashedHistory 2) hashedRun
  have hdoc : history.docs 1 ∈ history.versions :=
    List.mem_of_getElem? (show history.versions[3]? = some (history.docs 1) from rfl)
  refine hashesTrue_of_reachable lastWritten_grows
    (System.Reachable.after (.start (start_unhashedHistory 2)) ?_) hdoc
  refine .cons ⟨trivial, ?_⟩ rfl (.cons ⟨?_, ?_⟩ rfl (.cons ⟨trivial, trivial⟩ rfl trivial))
  · intro ref href path hpath entry hash hentry hindex _ content hcontent
    obtain rfl : unhashedTexts ["a".toList] = ref := Option.some.inj href
    obtain rfl : path = [0] := List.mem_singleton.mp hpath
    have hentry' : (unhashedTexts ["a".toList]).getObjId (.file [0]) = some 1 := by decide +kernel
    have hindex' : (unhashedTexts ["a".toList]).getHashIndex hashedBySize [0] = some 1 := by
      decide +kernel
    have hcontent' : (unhashedTexts ["a".toList]).entryContent hashedBySize 1 =
      some (.string "a".toList) := by decide +kernel
    obtain rfl : 1 = entry := Option.some.inj (hentry'.symm.trans hentry)
    obtain rfl : 1 = hash := Option.some.inj (hindex'.symm.trans hindex)
    obtain rfl : .string "a".toList = content := Option.some.inj (hcontent'.symm.trans hcontent)
    rfl
  · intro commit hcommit
    rw [List.mem_singleton.mp hcommit]
    rfl
  · exact ⟨fun hhash => absurd hhash (by decide +kernel), trivial⟩

/-- The text becomes another one, and then the index of the first version is asked for. -/
def staleRun : List (HistoryAction (List ℕ) ℕ ℕ ℕ 1) :=
  [.commit ⟨0, Nat.one_pos⟩ [.text [0] "bb".toList 2],
    .getHashIndex ⟨0, Nat.one_pos⟩ 0 [[0]]]

theorem not_hashesTrue_staleRun :
    ¬ ∀ history : History 1 (List ℕ) ℕ (ℕ ×ₗ List Char) (ℕ ×ₗ ℕ),
      (historySystem hashedBySize 1).Reachable (fun _ action => HashedAction hashedBySize action)
        history → ∀ doc ∈ history.versions, HashesTrue hashedBySize doc := by
  intro hall
  have hrun := hall ((historySystem hashedBySize 1).after (unhashedHistory 1) staleRun)
    (System.Reachable.after (.start (start_unhashedHistory 1)) ?_)
  · let doc := ((historySystem hashedBySize 1).after (unhashedHistory 1) staleRun).docs 0
    have hdoc : doc ∈ ((historySystem hashedBySize 1).after (unhashedHistory 1)
      staleRun).versions := List.mem_of_getElem? (show _[2]? = some doc from rfl)
    have hcontent : doc.getFileAtRef hashedBySize [0] = some (.string "bb".toList) := by
      decide +kernel
    have hstored : doc.storedHash [0] = some 1 := by decide +kernel
    nomatch (hrun doc hdoc [0] _ hcontent).1 1 hstored
  · refine .cons ?_ rfl (.cons trivial rfl trivial)
    intro commit hcommit
    rw [List.mem_singleton.mp hcommit]
    rfl

end Backstitch
