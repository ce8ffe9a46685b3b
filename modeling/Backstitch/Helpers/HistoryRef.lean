/-
# References to history

A reference names a branch and heads on it.  `new` sorts the heads; reading a text, hydrating
a document and deserializing a value keep the heads in the order in which they are listed.
Two references with the same heads are equal only where their lists are.
-/

import Backstitch.Library.Run
import Backstitch.Library.RustText
import Mathlib.Data.List.Sort

namespace Backstitch.Helpers

universe u v w

/-- A reference with its heads as they are stored; elsewhere only their set matters. -/
structure HistoryRef (κ : Type u) (χ : Type v) where
  branch : κ
  heads : List χ
  deriving DecidableEq

/-- The texts of document ids and change hashes. -/
structure RefTexts (κ : Type u) (χ : Type v) where
  showId : κ → String
  /-- `DocumentId::from_str`. -/
  parseId : String → Option κ
  showHash : χ → String
  /-- `ChangeHash::from_str`. -/
  parseHash : String → Option χ

/-- The texts are read back to what they were written for.  Ids are written in base 58 and
hashes in hexadecimal digits. -/
structure LawfulRefTexts (κ : Type u) (χ : Type v) extends RefTexts κ χ where
  parseId_showId : ∀ id, parseId (showId id) = some id
  parseHash_showHash : ∀ hash, parseHash (showHash hash) = some hash
  alphanumeric_showId : ∀ id, ∀ char ∈ (showId id).toList, char.isAlphanum
  alphanumeric_showHash : ∀ hash, ∀ char ∈ (showHash hash).toList, char.isAlphanum
  showHash_ne_empty : ∀ hash, showHash hash ≠ ""

/-- How ids and hashes are deserialized from values of a format. -/
structure RefValues (κ : Type u) (χ : Type v) (ν : Type w) where
  deserializeId : ν → Option κ
  deserializeHash : ν → Option χ

variable {κ : Type u} {χ : Type v} {ν : Type w}

namespace HistoryRef

/-- `HistoryRef::new`. -/
def new [LinearOrder χ] (branch : κ) (heads : List χ) : HistoryRef κ χ :=
  { branch := branch, heads := heads.insertionSort (· ≤ ·) }

def isValid (ref : HistoryRef κ χ) : Bool := !ref.heads.isEmpty

/-- What a hasher is fed. -/
def hashed (ref : HistoryRef κ χ) : κ × List χ := (ref.branch, ref.heads)

variable (texts : RefTexts κ χ)

/-- `Display`, which is an error for a reference without heads. -/
def display (ref : HistoryRef κ χ) : Option String :=
  if ref.isValid then
    some (texts.showId ref.branch ++ "+" ++ ".".intercalate (ref.heads.map texts.showHash))
  else none

/-- The heads that a text lists. -/
def parseHeads (headsPart : String) : Option (List χ) :=
  if headsPart = "" then some [] else (splitAtChar '.' headsPart).mapM texts.parseHash

/-- `HistoryRef::from_str`. -/
def fromStr (text : String) : Run (HistoryRef κ χ) :=
  match splitOnce "+" text with
  | none => .fail "Invalid history ref string"
  | some (docId, headsPart) =>
      match texts.parseId docId with
      | none => .fail "Invalid DocumentId in history ref string"
      | some branch =>
          match parseHeads texts headsPart with
          | none => .fail "Invalid ChangeHash"
          | some heads =>
              let result : HistoryRef κ χ := { branch := branch, heads := heads }
              if result.isValid then .done result else .fail "Invalid history ref"

/-- Hydration: the texts under the keys of the document, where they are there. -/
def hydrate (branch : Option String) (heads : Option (List String)) :
    Option (HistoryRef κ χ) :=
  (branch.bind texts.parseId).bind fun branch =>
    (heads.bind (·.mapM texts.parseHash)).map fun heads => { branch := branch, heads := heads }

/-- The derived deserialization: the values of the two fields, where they are there. -/
def deserialize (values : RefValues κ χ ν) (branch : Option ν) (heads : Option (List ν)) :
    Option (HistoryRef κ χ) :=
  (branch.bind values.deserializeId).bind fun branch =>
    (heads.bind (·.mapM values.deserializeHash)).map fun heads =>
      { branch := branch, heads := heads }

variable {texts}

/-- What a text is read to, if it is read. -/
theorem fromStr_eq_done_iff {text : String} {ref : HistoryRef κ χ} :
    fromStr texts text = .done ref ↔
      ∃ branch heads, (∃ docId headsPart, splitOnce "+" text = some (docId, headsPart) ∧
        texts.parseId docId = some branch ∧ parseHeads texts headsPart = some heads ∧
          heads ≠ []) ∧ ref = { branch := branch, heads := heads } := by
  constructor
  · intro hdone
    rw [fromStr] at hdone
    split at hdone
    · cases hdone
    · rename_i docId headsPart hsplit
      split at hdone
      · cases hdone
      · rename_i branch hbranch
        split at hdone
        · cases hdone
        · rename_i heads hheads
          dsimp only at hdone
          split_ifs at hdone with hvalid
          cases hdone
          refine ⟨branch, heads, ⟨docId, headsPart, hsplit, hbranch, hheads, ?_⟩, rfl⟩
          simpa [isValid] using hvalid
  · rintro ⟨branch, heads, ⟨docId, headsPart, hsplit, hbranch, hheads, hne⟩, rfl⟩
    simp [fromStr, hsplit, hbranch, hheads, isValid, hne]

variable (texts) in
/-- Reading a text ends with a reference or an error. -/
theorem fromStr_ends (text : String) :
    (∃ ref, fromStr texts text = .done ref) ∨ ∃ message, fromStr texts text = .fail message := by
  rw [fromStr]
  split
  · exact .inr ⟨_, rfl⟩
  · split
    · exact .inr ⟨_, rfl⟩
    · split
      · exact .inr ⟨_, rfl⟩
      · dsimp only
        split_ifs
        · exact .inl ⟨_, rfl⟩
        · exact .inr ⟨_, rfl⟩

/-- What a document or a value is read to, if it is read. -/
theorem readFields_eq_some_iff {σ : Type*} {parseId : σ → Option κ} {parseHash : σ → Option χ}
    {branch : Option σ} {heads : Option (List σ)} {ref : HistoryRef κ χ} :
    ((branch.bind parseId).bind fun branch => (heads.bind (·.mapM parseHash)).map fun heads =>
        (⟨branch, heads⟩ : HistoryRef κ χ)) = some ref ↔
      ∃ listedBranch listed, (∃ docId hashes, branch = some docId ∧ heads = some hashes ∧
        parseId docId = some listedBranch ∧ hashes.mapM parseHash = some listed) ∧
          ref = { branch := listedBranch, heads := listed } := by
  simp only [Option.bind_eq_some_iff, Option.map_eq_some_iff]
  constructor
  · rintro ⟨listedBranch, ⟨docId, hid, hbranch⟩, listed, ⟨hashes, hhashes, hlisted⟩, rfl⟩
    exact ⟨listedBranch, listed, ⟨docId, hashes, hid, hhashes, hbranch, hlisted⟩, rfl⟩
  · rintro ⟨listedBranch, listed, ⟨docId, hashes, hid, hhashes, hbranch, hlisted⟩, rfl⟩
    exact ⟨listedBranch, ⟨docId, hid, hbranch⟩, listed, ⟨hashes, hhashes, hlisted⟩, rfl⟩

/-- The heads are listed in the text one by one. -/
theorem mapM_parseHash_map_showHash (texts : LawfulRefTexts κ χ) (heads : List χ) :
    (heads.map texts.showHash).mapM texts.parseHash = some heads := by
  induction heads with
  | nil => rfl
  | cons head heads ih =>
      rw [List.map_cons, List.mapM_cons, texts.parseHash_showHash, ih]
      rfl

/-- **A reference is read back from the text that it is displayed as.** -/
theorem fromStr_display (texts : LawfulRefTexts κ χ) {ref : HistoryRef κ χ} {text : String}
    (hdisplay : ref.display texts.toRefTexts = some text) :
    fromStr texts.toRefTexts text = .done ref := by
  obtain ⟨branch, heads⟩ := ref
  rw [display] at hdisplay
  split_ifs at hdisplay with hvalid
  cases hdisplay
  have hne : heads ≠ [] := by simpa [isValid] using hvalid
  have hplus : '+' ∉ (texts.showId branch).toList := fun hmem =>
    absurd (texts.alphanumeric_showId branch _ hmem) (by decide)
  have hdots : ∀ part ∈ heads.map texts.showHash, '.' ∉ part.toList := by
    intro part hpart hmem
    obtain ⟨hash, -, rfl⟩ := List.mem_map.mp hpart
    exact absurd (texts.alphanumeric_showHash hash _ hmem) (by decide)
  have hsplit : splitAtChar '.' (".".intercalate (heads.map texts.showHash)) =
      heads.map texts.showHash :=
    splitAtChar_intercalate hdots (by simpa using hne)
  have hfilled : ".".intercalate (heads.map texts.showHash) ≠ "" := by
    intro hempty
    rw [hempty] at hsplit
    obtain ⟨hash, rest, rfl⟩ := List.exists_cons_of_ne_nil hne
    rw [List.map_cons] at hsplit
    exact texts.showHash_ne_empty hash (List.cons.inj hsplit).1.symm
  have hparts : splitOnce "+" (texts.showId branch ++ "+" ++
      ".".intercalate (heads.map texts.showHash)) =
        some (texts.showId branch, ".".intercalate (heads.map texts.showHash)) :=
    splitOnce_append rfl hplus
  have hheads : parseHeads texts.toRefTexts (".".intercalate (heads.map texts.showHash)) =
      some heads := by
    rw [parseHeads, if_neg hfilled, hsplit, mapM_parseHash_map_showHash]
  exact fromStr_eq_done_iff.mpr
    ⟨branch, heads, ⟨_, _, hparts, texts.parseId_showId branch, hheads, hne⟩, rfl⟩

/-- The characters of a displayed reference. -/
theorem mem_display {texts : LawfulRefTexts κ χ} {ref : HistoryRef κ χ} {text : String}
    (hdisplay : ref.display texts.toRefTexts = some text) {char : Char}
    (hmem : char ∈ text.toList) : char.isAlphanum = true ∨ char = '+' ∨ char = '.' := by
  rw [display] at hdisplay
  split_ifs at hdisplay
  cases hdisplay
  rw [String.toList_append, String.toList_append] at hmem
  rcases List.mem_append.mp hmem with hfront | hheads
  · rcases List.mem_append.mp hfront with hid | hplus
    · exact .inl (texts.alphanumeric_showId _ char hid)
    · exact .inr (.inl (List.mem_singleton.mp hplus))
  · rcases mem_intercalate hheads with hdot | ⟨part, hpart, hchar⟩
    · exact .inr (.inr (List.mem_singleton.mp hdot))
    · obtain ⟨hash, -, rfl⟩ := List.mem_map.mp hpart
      exact .inl (texts.alphanumeric_showHash hash char hchar)

end HistoryRef

/-! ## The ways to build a reference -/

/-- What a reference is built from. -/
inductive RefSource (κ : Type u) (χ : Type v) (ν : Type w)
  | new (branch : κ) (heads : List χ)
  | text (content : String)
  | document (branch : Option String) (heads : Option (List String))
  | value (branch : Option ν) (heads : Option (List ν))

namespace RefSource

variable (texts : RefTexts κ χ) (values : RefValues κ χ ν)

/-- The reference that is built, if any. -/
def build [LinearOrder χ] : RefSource κ χ ν → Option (HistoryRef κ χ)
  | .new branch heads => some (.new branch heads)
  | .text content =>
      match HistoryRef.fromStr texts content with
      | .done ref => some ref
      | _ => none
  | .document branch heads => HistoryRef.hydrate texts branch heads
  | .value branch heads => HistoryRef.deserialize values branch heads

/-- The branch and the heads that a source lists, each read on its own. -/
def Lists : RefSource κ χ ν → κ → List χ → Prop
  | .new branch heads, listedBranch, listed => branch = listedBranch ∧ heads = listed
  | .text content, listedBranch, listed =>
      ∃ docId headsPart, splitOnce "+" content = some (docId, headsPart) ∧
        texts.parseId docId = some listedBranch ∧
        HistoryRef.parseHeads texts headsPart = some listed ∧ listed ≠ []
  | .document branch heads, listedBranch, listed =>
      ∃ docId hashes, branch = some docId ∧ heads = some hashes ∧
        texts.parseId docId = some listedBranch ∧ hashes.mapM texts.parseHash = some listed
  | .value branch heads, listedBranch, listed =>
      ∃ docId hashes, branch = some docId ∧ heads = some hashes ∧
        values.deserializeId docId = some listedBranch ∧
        hashes.mapM values.deserializeHash = some listed

/-- The listed heads are sorted by `new`, or sorted already. -/
def Sorts [LinearOrder χ] (source : RefSource κ χ ν) (listed : List χ) : Prop :=
  (∃ branch heads, source = .new branch heads) ∨ listed.SortedLE

/-- The heads that a source stores of those it lists. -/
def stored [LinearOrder χ] : RefSource κ χ ν → List χ → List χ
  | .new _ _, listed => listed.insertionSort (· ≤ ·)
  | _, listed => listed

variable [LinearOrder χ]

/-- What is built is what is listed, and `new` sorts it. -/
theorem build_eq_some_iff {source : RefSource κ χ ν} {ref : HistoryRef κ χ} :
    source.build texts values = some ref ↔
      ∃ branch listed, source.Lists texts values branch listed ∧
        ref = { branch := branch, heads := source.stored listed } := by
  cases source with
  | new branch heads =>
      constructor
      · rintro ⟨rfl⟩
        exact ⟨branch, heads, ⟨rfl, rfl⟩, rfl⟩
      · rintro ⟨_, _, ⟨rfl, rfl⟩, rfl⟩
        rfl
  | text content =>
      have hbuild : RefSource.build texts values (.text content) = some ref ↔
          HistoryRef.fromStr texts content = .done ref := by
        rw [build]
        split
        · rename_i built hdone
          rw [hdone, Option.some_inj, Run.done.injEq]
        · rename_i hfails
          exact iff_of_false (fun hnone => nomatch hnone) (hfails ref)
      rw [hbuild]
      exact HistoryRef.fromStr_eq_done_iff
  | document branch heads => exact HistoryRef.readFields_eq_some_iff
  | value branch heads => exact HistoryRef.readFields_eq_some_iff

theorem stored_perm (source : RefSource κ χ ν) (listed : List χ) :
    (source.stored listed).Perm listed := by
  cases source with
  | new branch heads => exact List.perm_insertionSort _ listed
  | text content => exact .refl _
  | document branch heads => exact .refl _
  | value branch heads => exact .refl _

/-- What is stored is sorted exactly if it is sorted by `new` or listed in order. -/
theorem sortedLE_stored_iff (source : RefSource κ χ ν) (listed : List χ) :
    (source.stored listed).SortedLE ↔ source.Sorts listed := by
  cases source with
  | new branch heads =>
      exact iff_of_true List.sortedLE_insertionSort (.inl ⟨branch, heads, rfl⟩)
  | text content => simp [stored, Sorts]
  | document branch heads => simp [stored, Sorts]
  | value branch heads => simp [stored, Sorts]

end RefSource

/-! ## References with sorted heads -/

section Canonical

variable [LinearOrder χ] (texts : RefTexts κ χ) (values : RefValues κ χ ν)

/-- **The invariant of `new`**: the heads of both references are sorted, and with the same
branch and the same set of heads they are equal, hash alike and print alike. -/
def CanonicalRefs (first second : RefSource κ χ ν) : Prop :=
  ∀ a b, first.build texts values = some a → second.build texts values = some b →
    a.heads.SortedLE ∧ b.heads.SortedLE ∧
      (a.branch = b.branch → (∀ head, head ∈ a.heads ↔ head ∈ b.heads) →
        a = b ∧ a.hashed = b.hashed ∧ a.display texts = b.display texts)

/-- **Exactly when two references keep the invariant of `new`**: their heads are sorted by
`new` or listed in order, and the same heads on the same branch are listed equally often. -/
theorem canonicalRefs_iff (first second : RefSource κ χ ν) :
    CanonicalRefs texts values first second ↔
      ∀ branch listed otherBranch others, first.Lists texts values branch listed →
        second.Lists texts values otherBranch others →
          first.Sorts listed ∧ second.Sorts others ∧
            (branch = otherBranch → (∀ head, head ∈ listed ↔ head ∈ others) →
              listed.Perm others) := by
  constructor
  · intro hcanonical branch listed otherBranch others hlists hothers
    obtain ⟨hfirst, hsecond, hequal⟩ := hcanonical
      { branch := branch, heads := first.stored listed }
      { branch := otherBranch, heads := second.stored others }
      ((RefSource.build_eq_some_iff texts values).mpr ⟨branch, listed, hlists, rfl⟩)
      ((RefSource.build_eq_some_iff texts values).mpr ⟨otherBranch, others, hothers, rfl⟩)
    refine ⟨(first.sortedLE_stored_iff listed).mp hfirst,
      (second.sortedLE_stored_iff others).mp hsecond, fun hbranch hsame => ?_⟩
    have hstored : first.stored listed = second.stored others := by
      refine congrArg HistoryRef.heads (hequal hbranch fun head => ?_).1
      rw [(first.stored_perm listed).mem_iff, (second.stored_perm others).mem_iff]
      exact hsame head
    calc
      listed.Perm (first.stored listed) := (first.stored_perm listed).symm
      _ = second.stored others := hstored
      List.Perm _ others := second.stored_perm others
  · intro hlists a b ha hb
    obtain ⟨branch, listed, hlisted, rfl⟩ := (RefSource.build_eq_some_iff texts values).mp ha
    obtain ⟨otherBranch, others, hothers, rfl⟩ :=
      (RefSource.build_eq_some_iff texts values).mp hb
    obtain ⟨hfirst, hsecond, hperm⟩ := hlists branch listed otherBranch others hlisted hothers
    have hsorted := (first.sortedLE_stored_iff listed).mpr hfirst
    have hotherSorted := (second.sortedLE_stored_iff others).mpr hsecond
    refine ⟨hsorted, hotherSorted, fun hbranch hsame => ?_⟩
    have hheads : first.stored listed = second.stored others := by
      apply List.Perm.eq_of_sortedLE hsorted hotherSorted
      apply (first.stored_perm listed).trans
      refine (hperm hbranch fun head => ?_).trans (second.stored_perm others).symm
      rw [← (first.stored_perm listed).mem_iff, ← (second.stored_perm others).mem_iff]
      exact hsame head
    have hbranches : branch = otherBranch := hbranch
    rw [hbranches, hheads]
    exact ⟨rfl, rfl, rfl⟩

end Canonical

/-! ## Heads in another order -/

/-- The text of one digit over and over. -/
def repeated (digit : Char) (count : ℕ) : String := String.ofList (List.replicate count digit)

/-- One document id and two hashes. -/
def knownTexts : LawfulRefTexts Unit Bool where
  showId _ := repeated '4' 28
  parseId text := if text = repeated '4' 28 then some () else none
  showHash hash := repeated (if hash then 'f' else '0') 64
  parseHash text :=
    if text = repeated '0' 64 then some false
    else if text = repeated 'f' 64 then some true
    else none
  parseId_showId _ := by simp
  parseHash_showHash hash := by
    cases hash with
    | false => simp
    | true => simp [repeated]
  alphanumeric_showId _ := by
    simp only [repeated, String.toList_ofList, List.mem_replicate]
    rintro char ⟨-, rfl⟩
    decide
  alphanumeric_showHash hash := by
    simp only [repeated, String.toList_ofList, List.mem_replicate]
    rintro char ⟨-, rfl⟩
    cases hash <;> decide
  showHash_ne_empty hash := by simp [repeated, ← String.toList_inj]

/-- A text in which the later of the two hashes comes first. -/
def swappedHeads : RefSource Unit Bool String :=
  .text (knownTexts.showId () ++ "+" ++ ".".intercalate ([true, false].map knownTexts.showHash))

/-- Values that are texts. -/
def textValues : RefValues Unit Bool String where
  deserializeId := knownTexts.parseId
  deserializeHash := knownTexts.parseHash

/-- The reference that is read from the text has unsorted heads. -/
theorem not_canonicalRefs_swappedHeads :
    ¬ CanonicalRefs knownTexts.toRefTexts textValues swappedHeads swappedHeads := by
  intro hcanonical
  have hdisplay : HistoryRef.display knownTexts.toRefTexts ⟨(), [true, false]⟩ =
      some (knownTexts.showId () ++ "+" ++
        ".".intercalate ([true, false].map knownTexts.showHash)) := rfl
  have hbuild : swappedHeads.build knownTexts.toRefTexts textValues =
      some ⟨(), [true, false]⟩ := by
    rw [swappedHeads, RefSource.build, HistoryRef.fromStr_display knownTexts hdisplay]
  obtain ⟨hsorted, -, -⟩ := hcanonical _ _ hbuild hbuild
  have hle := List.rel_of_pairwise_cons hsorted.pairwise (List.mem_singleton_self false)
  exact absurd hle (by decide)

end Backstitch.Helpers
