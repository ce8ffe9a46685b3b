/-
# Which files are linked documents

The watcher collects the documents that a branch links by looking at the key `url` of each
entry; whoever reads a file looks at `structured_content` and `content` first.  The two
agree as long as no entry has both: text takes the url away before it is written, and a
scene does not.
-/

import Backstitch.Document.DocClients
import Mathlib.Data.Finset.Option

namespace Backstitch

universe u₁ u₂ u₃ u₄ u₅ u₆

variable {τ : Type u₁} {σ : Type u₂} {ω : Type u₃} {ι : Type u₄} {π : Type u₅} {δ : Type u₆}

namespace BranchDoc

section Links

variable [DecidableEq π] (doc : BranchDoc π δ τ σ) (nested : Nested τ σ ω ι)

/-- The paths in `files`. -/
def keys : Finset π :=
  doc.ops.biUnion fun op =>
    match op.location with
    | .file path => if (doc.get (.file path)).isSome then {path} else ∅
    | .field _ _ => ∅

/-- The document that the watcher finds at a path. -/
def urlAt (path : π) : Option ι :=
  ((doc.getObjId (.file path)).bind fun file => doc.getString (.field file .url)).bind
    nested.parseAutomergeUrl

variable [DecidableEq ι]

/-- What `ingest_branch_document` collects. -/
def linkedDocs : Finset ι :=
  doc.keys.biUnion fun path => (doc.urlAt nested path).toFinset

/-- The documents that `hydrate_content_at` reports. -/
def hydratedLinks [DecidableEq ω] : Finset ι :=
  doc.keys.biUnion fun path =>
    match doc.contentAt nested path with
    | some (.linked id) => {id}
    | _ => ∅

variable {doc nested}

/-- The keys are the paths that show something. -/
theorem mem_keys_iff (hvalid : doc.Valid) {path : π} :
    path ∈ doc.keys ↔ doc.get (.file path) ≠ none := by
  rw [keys, Finset.mem_biUnion]
  constructor
  · intro ⟨op, _, hpath⟩
    cases hlocation : op.location with
    | field entry key => simp [hlocation] at hpath
    | file other =>
        simp only [hlocation] at hpath
        split at hpath
        · rename_i hsome
          rw [Finset.mem_singleton.mp hpath]
          exact Option.isSome_iff_ne_none.mp hsome
        · exact absurd hpath (Finset.notMem_empty path)
  · intro hget
    obtain ⟨⟨value, id⟩, hfound⟩ := Option.ne_none_iff_exists'.mp hget
    obtain ⟨op, hwins, -, -⟩ := (get_eq_some_iff hvalid).mp hfound
    refine ⟨op, OpSet.mem_of_mem_live hwins.1, ?_⟩
    simp [OpSet.location_of_mem_live hwins.1, hfound]

theorem mem_linkedDocs_iff (hvalid : doc.Valid) {id : ι} :
    id ∈ doc.linkedDocs nested ↔ ∃ path, doc.urlAt nested path = some id := by
  simp only [linkedDocs, Finset.mem_biUnion, Option.mem_toFinset, Option.mem_def]
  refine exists_congr fun path => and_iff_right_of_imp fun hurl => ?_
  rw [mem_keys_iff hvalid]
  intro hnone
  rw [urlAt, getObjId, hnone] at hurl
  cases hurl

theorem mem_hydratedLinks_iff [DecidableEq ω] (hvalid : doc.Valid) {id : ι} :
    id ∈ doc.hydratedLinks nested ↔ ∃ path, doc.contentAt nested path = some (.linked id) := by
  simp only [hydratedLinks, Finset.mem_biUnion, mem_keys_iff hvalid]
  refine exists_congr fun path => ⟨fun hboth => ?_, fun hcontent => ⟨fun hnone => ?_, ?_⟩⟩
  · have hmem := hboth.2
    split at hmem
    · rename_i found hcontent
      rw [hcontent, Finset.mem_singleton.mp hmem]
    · exact absurd hmem (Finset.notMem_empty id)
  · rw [contentAt, hnone] at hcontent
    cases hcontent
  · simp [hcontent]

end Links

section Alone

variable [DecidableEq π] [DecidableEq δ]

/-- Where content or a scene was ever put, no url is there. -/
def UrlsAlone (ops : OpSet (Slot π) (Value δ)) : Prop :=
  ∀ op ∈ ops, ∀ entry,
    op.location = .field entry .content ∨ op.location = .field entry .structuredContent →
      op.value ≠ none → ops.live (.field entry .url) = ∅

variable {actors : ℕ} {actor : Fin actors} {start ops : OpSet (Slot π) (Value δ)}

/-- A commit that puts no scene beside a url keeps urls alone. -/
theorem UrlsAlone.written (halone : UrlsAlone start)
    (hwritten : OpSet.WrittenBy actor (Writes True start) start ops) : UrlsAlone ops := by
  refine hwritten.induct halone fun ops slot value halone hallowed _ => ?_
  intro op hop entry hlocation hvalue
  have hkept : slot ≠ .field entry .url → ops.live (.field entry .url) = ∅ →
      (ops.write (OpSet.freshId actor ops) slot value).live (.field entry .url) = ∅ :=
    fun hne hempty => (OpSet.live_write_of_ne hne).trans hempty
  rcases OpSet.mem_write_iff.mp hop with rfl | hold
  · rcases hlocation with rfl | rfl
    · exact hkept nofun (hallowed.2 hvalue)
    · exact hkept nofun (hallowed.2 hvalue trivial)
  · by_cases hslot : slot = .field entry .url
    · subst hslot
      cases value with
      | none => exact OpSet.live_write_none
      | some value =>
          have hfree := (hallowed.2 nofun).2 op hold
          exact absurd hlocation (not_or.mpr hfree)
    · exact hkept hslot (halone op hold entry hlocation hvalue)

/-- A url is put only in an entry that the same commit made. -/
theorem mem_or_not_known (hwritten : OpSet.WrittenBy actor (Writes True start) start ops) :
    ∀ op ∈ ops, ∀ entry, op.location = .field entry .url → op.value ≠ none →
      op ∈ start ∨ ∀ made ∈ start, made.id ≠ entry := by
  induction hwritten with
  | start => exact fun op hop _ _ _ => .inl hop
  | write _ hallowed ih =>
      intro op hop entry hlocation hvalue
      rcases OpSet.mem_write_iff.mp hop with rfl | hop
      · subst hlocation
        exact .inr (hallowed.2 hvalue).1
      · exact ih op hop entry hlocation hvalue

end Alone

end BranchDoc

/-! ## All copies -/

section Copies

variable [DecidableEq π] [DecidableEq δ] {actors : ℕ} {docs : Fin actors → BranchDoc π δ τ σ}

/-- Who knows an entry has its url, and no url has anything beside it. -/
structure LinksKept (docs : Fin actors → BranchDoc π δ τ σ) : Prop extends DocsKept docs where
  complete : ∀ holder other, ∀ op ∈ (docs other).ops, ∀ entry,
    op.location = .field entry .url → op.value ≠ none → (docs holder).Known entry →
      op ∈ (docs holder).ops
  alone : ∀ client, BranchDoc.UrlsAlone (docs client).ops

theorem LinksKept.commit (hkept : LinksKept docs) (nested : Nested τ σ ω ι)
    (client : Fin actors) (commits : List (CommitEntry π δ ω ι))
    (hplain : BranchDoc.NoUrlsBelow client nested (docs client) commits) :
    LinksKept (Function.update docs client
      ((docs client).commitEntries client nested commits).1) := by
  have hwritten := BranchDoc.written_commitEntries client nested (hkept.valid client) True
    commits fun _ => hplain
  let doc := ((docs client).commitEntries client nested commits).1
  have hvalid : doc.Valid := (hkept.valid client).of_commitEntries client nested commits
  -- an entry that somebody else knows is none that this commit made
  have hknown : ∀ other entry, (docs other).Known entry → doc.Known entry →
      (docs client).Known entry := by
    intro other entry ⟨made, hmade, hid, path, hpath⟩ ⟨made', hmade', hid', path', hpath'⟩
    rcases hwritten.mem_or_new hmade' with hold | ⟨hmod, hlater⟩
    · exact ⟨made', hold, hid', path', hpath'⟩
    · obtain ⟨owner, howner, hmem⟩ := hkept.owned other made hmade
      rw [hid, ← hid', hmod] at howner
      obtain rfl : client = owner := Fin.ext howner
      exact absurd (hid.trans hid'.symm) (Nat.ne_of_lt (hlater made hmem))
  have hfits : ∀ other, ∀ op ∈ (docs other).ops, ∀ entry key,
      op.location = .field entry key → (docs other).Known entry := by
    intro other op hop entry key hlocation
    have h := (hkept.valid other).fits op hop
    rw [hlocation] at h
    exact h
  refine ⟨hkept.toDocsKept.commit nested client commits, ?_, fun other => ?_⟩
  · intro holder other op hop entry hlocation hvalue hentry
    by_cases hother : other = client
    · subst hother
      rw [Function.update_self] at hop
      by_cases hholder : holder = other
      · rwa [hholder, Function.update_self]
      · rw [Function.update_of_ne hholder] at hentry ⊢
        rcases BranchDoc.mem_or_not_known hwritten op hop entry hlocation hvalue with hold | hnew
        · exact hkept.complete holder other op hold entry hlocation hvalue hentry
        · have hdoc : doc.Known entry := by
            have h := hvalid.fits op hop
            rw [hlocation] at h
            exact h
          obtain ⟨made, hmade, hid, -⟩ := hknown holder entry hentry hdoc
          exact absurd hid (hnew made hmade)
    · rw [Function.update_of_ne hother] at hop
      by_cases hholder : holder = client
      · subst hholder
        rw [Function.update_self] at hentry ⊢
        have hold := hknown other entry (hfits other op hop entry .url hlocation) hentry
        exact hwritten.subset
          (hkept.complete holder other op hop entry hlocation hvalue hold)
      · rw [Function.update_of_ne hholder] at hentry ⊢
        exact hkept.complete holder other op hop entry hlocation hvalue hentry
  · by_cases heq : other = client
    · rw [heq, Function.update_self]
      exact (hkept.alone client).written hwritten
    · rw [Function.update_of_ne heq]
      exact hkept.alone other

theorem LinksKept.merge [Max τ] [Max σ] (hkept : LinksKept docs) (into source : Fin actors) :
    LinksKept (Function.update docs into ((docs into).merge (docs source))) := by
  let doc := (docs into).merge (docs source)
  have hold : ∀ client, ∀ op ∈ (Function.update docs into doc client).ops,
      ∃ other, op ∈ (docs other).ops ∧
        (docs other).ops ⊆ (Function.update docs into doc client).ops := by
    intro client op hop
    by_cases heq : client = into
    · rw [heq, Function.update_self] at hop ⊢
      rcases Finset.mem_union.mp hop with hop | hop
      · exact ⟨into, hop, Finset.subset_union_left⟩
      · exact ⟨source, hop, Finset.subset_union_right⟩
    · rw [Function.update_of_ne heq] at hop ⊢
      exact ⟨client, hop, Finset.Subset.refl _⟩
  have hcomplete : ∀ holder other,
      ∀ op ∈ (Function.update docs into doc other).ops, ∀ entry,
      op.location = .field entry .url → op.value ≠ none →
      (Function.update docs into doc holder).Known entry →
        op ∈ (Function.update docs into doc holder).ops := by
    intro holder other op hop entry hlocation hvalue ⟨made, hmade, hentry⟩
    obtain ⟨first, hop, -⟩ := hold other op hop
    obtain ⟨second, hmade, hsubset⟩ := hold holder made hmade
    exact hsubset
      (hkept.complete second first op hop entry hlocation hvalue ⟨made, hmade, hentry⟩)
  have hmerged := hkept.toDocsKept.merge into source
  refine ⟨hmerged, hcomplete, fun client op hop entry hlocation hvalue => ?_⟩
  obtain ⟨other, hop, hsubset⟩ := hold client op hop
  -- who put content there knew the entry, and with it the url
  have hknown : (docs other).Known entry := by
    have h := (hkept.valid other).fits op hop
    rcases hlocation with hlocation | hlocation <;> rw [hlocation] at h <;> exact h
  rw [Finset.eq_empty_iff_forall_notMem]
  intro url hurl
  obtain ⟨first, hfirst, -⟩ := hold client url (OpSet.mem_of_mem_live hurl)
  have hhas := hkept.complete other first url hfirst entry (OpSet.location_of_mem_live hurl)
    (OpSet.mem_live_iff.mp hurl).2.2.1 hknown
  have hlive := OpSet.mem_live_of_subset hsubset hhas hurl
  rw [hkept.alone other op hop entry hlocation hvalue] at hlive
  exact Finset.notMem_empty url hlive

omit [DecidableEq δ] in
theorem linksKept_of_start {nested : Nested τ σ ω ι}
    (hstart : ∀ client, docs client = nested.emptyDoc) : LinksKept docs := by
  have hempty : ∀ client, (docs client).ops = ∅ := fun client => by rw [hstart]; rfl
  refine ⟨docsKept_of_start hstart, fun holder other op hop => ?_, fun client op hop => ?_⟩
  · rw [hempty] at hop
    exact absurd hop (Finset.notMem_empty op)
  · rw [hempty] at hop
    exact absurd hop (Finset.notMem_empty op)

/-- A commit puts no scene into an entry with a url. -/
def ScenesApart (nested : Nested τ σ ω ι) (docs : Fin actors → BranchDoc π δ τ σ) :
    DocAction π δ ω ι actors → Prop
  | .commit client commits => BranchDoc.NoUrlsBelow client nested (docs client) commits
  | .merge _ _ => True

theorem linksKept_of_reachable [Max τ] [Max σ] {nested : Nested τ σ ω ι}
    (hreach : (docSystem nested actors).Reachable (ScenesApart nested) docs) :
    LinksKept docs := by
  refine hreach.invariant (fun _ hstart => linksKept_of_start hstart) ?_
  intro docs action next hkept hallowed hstep
  cases action with
  | commit client entries =>
      cases hstep
      exact hkept.commit nested client entries hallowed
  | merge into source =>
      cases hstep
      exact hkept.merge into source

omit [DecidableEq δ] in
/-- An entry that shows content or a scene shows no url. -/
theorem LinksKept.getString_url (hkept : LinksKept docs) {client : Fin actors} {entry : ℕ}
    {key : FieldKey} (hkey : key = .content ∨ key = .structuredContent)
    (hget : (docs client).get (.field entry key) ≠ none) :
    (docs client).getString (.field entry .url) = none := by
  have hvalid := hkept.valid client
  obtain ⟨op, hlive⟩ := Finset.nonempty_iff_ne_empty.mpr
    (mt (BranchDoc.get_eq_none_iff hvalid).mpr hget)
  obtain ⟨hop, hlocation, hvalue, -⟩ := OpSet.mem_live_iff.mp hlive
  have hor : op.location = .field entry .content ∨
      op.location = .field entry .structuredContent := by
    rcases hkey with rfl | rfl
    · exact .inl hlocation
    · exact .inr hlocation
  have hnone := (BranchDoc.get_eq_none_iff hvalid).mpr
    (hkept.alone client op hop entry hor hvalue)
  rw [BranchDoc.getString, hnone]

omit [DecidableEq δ] in
/-- The watcher finds a document at a path where reading the path reports it. -/
theorem LinksKept.urlAt_eq_some_iff (hkept : LinksKept docs) (nested : Nested τ σ ω ι)
    (client : Fin actors) (path : π) (id : ι) :
    (docs client).urlAt nested path = some id ↔
      (docs client).contentAt nested path = some (.linked id) := by
  rw [BranchDoc.urlAt, BranchDoc.getObjId_file (hkept.valid client), BranchDoc.contentAt]
  cases hfile : (docs client).get (.file path) with
  | none => simp
  | some found =>
      obtain ⟨value, entry⟩ := found
      obtain rfl := BranchDoc.eq_map_of_get_file (hkept.valid client) hfile
      simp only [Option.map_some, Option.bind_some, BranchDoc.hydrateContentAt]
      cases hscene : (docs client).get (.field entry .structuredContent) with
      | some scene =>
          rw [hkept.getString_url (.inr rfl) (by rw [hscene]; exact Option.some_ne_none _)]
          cases (docs client).hydrateSceneAt nested path <;> simp
      | none =>
          cases hcontent : (docs client).get (.field entry .content) with
          | none =>
              cases ((docs client).getString (.field entry .url)).bind
                nested.parseAutomergeUrl <;> simp
          | some content =>
              rw [hkept.getString_url (.inl rfl) (by rw [hcontent]; exact Option.some_ne_none _)]
              obtain ⟨value, object⟩ := content
              cases value <;> simp

/-- **Where no scene is put into an entry with a url, the watcher collects the documents
that reading the files reports.** -/
theorem linkedDocs_eq_hydratedLinks [Max τ] [Max σ] [DecidableEq ι] [DecidableEq ω]
    {nested : Nested τ σ ω ι}
    (hreach : (docSystem nested actors).Reachable (ScenesApart nested) docs)
    (client : Fin actors) :
    (docs client).linkedDocs nested = (docs client).hydratedLinks nested := by
  have hkept := linksKept_of_reachable hreach
  ext id
  rw [BranchDoc.mem_linkedDocs_iff (hkept.valid client),
    BranchDoc.mem_hydratedLinks_iff (hkept.valid client)]
  exact exists_congr fun path => hkept.urlAt_eq_some_iff nested client path id

end Copies

/-- One client links a document and another one replaces it by text, while a third one
commits a scene elsewhere. -/
def linkAndText : List (DocAction ℕ ℕ ℕ ℕ 3) :=
  [.commit 0 [.binary 0 5 70, .binary 1 6 71], .merge 1 0, .commit 1 [.text 0 "a".toList 72],
    .commit 2 [.scene 2 7 73], .merge 0 1, .merge 0 2]

/-- The first client ends with one document linked. -/
theorem linkedDocs_eq_hydratedLinks_linkAndText :
    let docs := (docSystem lastWritten 3).after (noFiles 3) linkAndText
    (docs 0).linkedDocs lastWritten = {6} ∧
      (docs 0).linkedDocs lastWritten = (docs 0).hydratedLinks lastWritten := by
  intro docs
  have hwithin : (docSystem lastWritten 3).RunsWithin (ScenesApart lastWritten) (noFiles 3)
      linkAndText := by
    refine .cons ⟨trivial, trivial, trivial⟩ rfl (.cons trivial rfl
      (.cons ⟨trivial, trivial⟩ rfl (.cons ⟨fun entry hget => ?_, trivial⟩ rfl
        (.cons trivial rfl (.cons trivial rfl trivial)))))
    -- the third client has no file yet
    nomatch hget
  refine ⟨?_, linkedDocs_eq_hydratedLinks ?_ 0⟩
  · decide +kernel
  · exact (System.Reachable.start fun _ => rfl).after hwithin

/-- A scene over a link: the watcher still collects the document, which no file is. -/
theorem linkedDocs_ne_hydratedLinks :
    ¬ ∀ docs : Fin 1 → BranchDoc ℕ ℕ (ℕ ×ₗ List Char) (ℕ ×ₗ ℕ),
      (docSystem lastWritten 1).Reachable (fun _ _ => True) docs →
      ∀ client, (docs client).linkedDocs lastWritten = (docs client).hydratedLinks lastWritten := by
  intro hall
  have hreach : (docSystem lastWritten 1).Reachable (fun _ _ => True)
      ((docSystem lastWritten 1).after (noFiles 1)
        [.commit 0 [.binary 0 5 70], .commit 0 [.scene 0 7 71]]) :=
    (System.Reachable.start fun _ => rfl).after (System.runsWithin_true _ _)
  exact absurd (hall _ hreach 0) (by decide +kernel)

end Backstitch
