/-
# The history that is shown

`get_changes` lists the changes of the shadow document and behind them those that only the
canonical document has, and shows a change as synced where both have it and it is not
listed behind the last head that the server acknowledged.  Both documents list what a change
depends on before the change.
-/

import Backstitch.Document.BranchDocument
import Backstitch.Library.CausalOrder
import Backstitch.Library.UnixPath
import Mathlib.Data.List.Induction

namespace Backstitch

universe u v

structure MergeMetadata (κ : Type u) (χ : Type v) where
  mergedBranchId : κ
  forkedAtHeads : List χ
  deriving DecidableEq

structure CommitMetadata (κ : Type u) (χ : Type v) where
  username : Option String
  branchId : Option κ
  mergeMetadata : Option (MergeMetadata κ χ)
  revertedTo : Option (List χ)
  changedFiles : Option (List (ChangedFile String))
  isSetup : Option Bool
  deriving DecidableEq

/-- What is read of a `ChangeMetadata`. -/
structure ChangeMetadata (χ : Type v) where
  hash : χ
  timestamp : ℤ
  message : Option String

structure CommitInfo (κ : Type u) (χ : Type v) where
  hash : χ
  timestamp : ℤ
  metadata : Option (CommitMetadata κ χ)
  synced : Bool
  summary : String
  deriving DecidableEq

/-! ## Summaries -/

def getSummaryText (changes : List (ChangedFile String)) (operation : ChangeType)
    (displayOperation : Option String) : String :=
  let display := displayOperation.getD <|
    match operation with
    | .created => "added"
    | .deleted => "removed"
    | .modified => "modified"
  match changes.filter (·.changeType = operation) with
  | [] => ""
  | [change] => display ++ " " ++ (UnixPath.fileName change.path).getD change.path
  | filtered => display ++ " " ++ toString filtered.length ++ " files"

def summarizeChanges (author : String) (changes : List (ChangedFile String)) : String :=
  let added := getSummaryText changes .created none
  let removed := getSummaryText changes .deleted none
  let modified := getSummaryText changes .modified (some "edited")
  match [added, removed, modified].filter (· ≠ "") with
  | [first] => author ++ " " ++ first
  | [first, second] => author ++ " " ++ first ++ " and " ++ second
  | _ => author ++ " made some changes"

/-- What the ingester reads besides the changes. -/
structure IngesterEnv (κ : Type u) (χ : Type v) where
  /-- `serde_json::from_str`. -/
  fromStr : String → Option (CommitMetadata κ χ)
  getBranchName : κ → Option String
  showId : κ → String
  showHash : χ → String
  /-- `get_checked_out_ref_mut`: the branch of the ref. -/
  checkedOut : Option κ
  /-- The heads that the server acknowledged last, from `get_server_info`. -/
  lastAckedHeads : κ → Option (List χ)
  getShadowChanges : κ → Option (List (ChangeMetadata χ))
  getCanonicalChanges : κ → Option (List (ChangeMetadata χ))

variable {κ : Type u} {χ : Type v} [DecidableEq κ] [DecidableEq χ]

/-- The position of a change has 32 bits. -/
def asI32 (position : ℕ) : ℤ := (position : ℤ).bmod (2 ^ 32)

/-- The changes of the shadow document, and behind them those that only the canonical
document has. -/
def mergeChanges (shadow canonical : List (ChangeMetadata χ)) : List (ChangeMetadata χ) :=
  shadow ++ canonical.filter (fun change => change.hash ∉ shadow.map (·.hash))

/-- `synced_until_index`. -/
def syncedUntilIndex (lastAckedHeads hashes : List χ) : ℤ :=
  hashes.zipIdx.foldl (fun index entry =>
    if entry.1 ∈ lastAckedHeads then asI32 entry.2 else index) (-1)

namespace IngesterEnv

variable (env : IngesterEnv κ χ)

def getChangeSummary (change : CommitInfo κ χ) : Option String :=
  change.metadata.bind fun metadata =>
    let author := metadata.username.getD "Anonymous"
    match metadata.mergeMetadata, metadata.revertedTo with
    | some mergeInfo, _ =>
        let mergedBranch :=
          (env.getBranchName mergeInfo.mergedBranchId).getD (env.showId mergeInfo.mergedBranchId)
        some ("↪ " ++ author ++ " merged " ++ mergedBranch)
    | none, some revertInfo =>
        let heads := revertInfo.map fun head =>
          String.ofList ((env.showHash head).toList.take 7)
        some ("↩ " ++ author ++ " reverted to " ++ String.intercalate ", " heads)
    | none, none =>
        if metadata.isSetup = some true then
          some <| match metadata.changedFiles with
            | none => "Initialized repository"
            | some files => "Checked-in " ++ toString files.length ++ " files"
        else metadata.changedFiles.map (summarizeChanges author)

def toCommitInfo (change : ChangeMetadata χ) : CommitInfo κ χ where
  hash := change.hash
  timestamp := change.timestamp
  metadata := change.message.bind env.fromStr
  synced := false
  summary := ""

/-- Only a change with valid metadata of the branch is shown. -/
def onBranch (branch : κ) (change : CommitInfo κ χ) : Bool :=
  change.metadata.any (·.branchId = some branch)

/-- The changes of a branch, in the order in which `get_changes` goes through them. -/
def listing (branch : κ) : List (ChangeMetadata χ) :=
  mergeChanges ((env.getShadowChanges branch).getD []) ((env.getCanonicalChanges branch).getD [])

/-- `intersecting_hashes`, which holds the symmetric difference. -/
def intersectingHash (branch : κ) (hash : χ) : Bool :=
  (hash ∈ ((env.getShadowChanges branch).getD []).map (·.hash)) ^^
    (hash ∈ ((env.getCanonicalChanges branch).getD []).map (·.hash))

/-- What is shown of a change and its position. -/
def commitInfo (branch : κ) (syncedUntil : ℤ) (entry : CommitInfo κ χ × ℕ) :
    Option (CommitInfo κ χ) :=
  if onBranch branch entry.1 then
    some { entry.1 with
      synced := decide (asI32 entry.2 ≤ syncedUntil) && !env.intersectingHash branch entry.1.hash
      summary := (env.getChangeSummary entry.1).getD "Invalid data" }
  else none

def getChanges : List (CommitInfo κ χ) :=
  match env.checkedOut with
  | none => []
  | some branch =>
      let changes := (env.listing branch).map env.toCommitInfo
      let syncedUntil :=
        syncedUntilIndex ((env.lastAckedHeads branch).getD []) (changes.map (·.hash))
      changes.zipIdx.filterMap (env.commitInfo branch syncedUntil)

end IngesterEnv

/-! ## The last acknowledged head -/

/-- The position of the last listed head that was acknowledged. -/
def LastAcked (listing heads : List χ) (position : ℕ) : Prop :=
  (∃ head, listing[position]? = some head ∧ head ∈ heads) ∧
    ∀ later head, position < later → listing[later]? = some head → head ∉ heads

/-- A position that does not come behind the last acknowledged head, as 32 bits have it. -/
def NotBehind (listing heads : List χ) (position : ℕ) : Prop :=
  (∃ last, LastAcked listing heads last ∧ asI32 position ≤ asI32 last) ∨
    (∀ hash ∈ listing, hash ∉ heads) ∧ asI32 position ≤ -1

omit [DecidableEq χ] in
theorem LastAcked.unique {listing heads : List χ} {first second : ℕ}
    (hfirst : LastAcked listing heads first) (hsecond : LastAcked listing heads second) :
    first = second := by
  obtain ⟨⟨head, hat, hmem⟩, hlast⟩ := hfirst
  obtain ⟨⟨other, hother, hotherMem⟩, hotherLast⟩ := hsecond
  rcases Nat.lt_trichotomy first second with hlt | heq | hlt
  · exact absurd hotherMem (hlast second other hlt hother)
  · exact heq
  · exact absurd hmem (hotherLast first head hlt hat)

/-- What the loop over the changes finds. -/
theorem syncedUntilIndex_cases (heads listing : List χ) :
    (∃ last, LastAcked listing heads last ∧ syncedUntilIndex heads listing = asI32 last) ∨
    (∀ hash ∈ listing, hash ∉ heads) ∧ syncedUntilIndex heads listing = -1 := by
  induction listing using List.reverseRecOn with
  | nil => exact .inr ⟨by simp, rfl⟩
  | append_singleton front hash ih =>
      have hstep : syncedUntilIndex heads (front ++ [hash]) =
          if hash ∈ heads then asI32 front.length else syncedUntilIndex heads front := by
        simp [syncedUntilIndex, List.zipIdx_append]
      rw [hstep]
      by_cases hmem : hash ∈ heads
      · left
        rw [if_pos hmem]
        refine ⟨front.length, ⟨⟨hash, List.getElem?_concat_length, hmem⟩, ?_⟩, rfl⟩
        intro later head hlater hat
        rw [List.getElem?_eq_none (by simp; omega)] at hat
        cases hat
      · rw [if_neg hmem]
        rcases ih with ⟨last, ⟨⟨head, hat, hhead⟩, hlast⟩, hindex⟩ | ⟨hnone, hindex⟩
        · left
          refine ⟨last, ⟨⟨head, ?_, hhead⟩, ?_⟩, hindex⟩
          · rw [List.getElem?_append_left (List.getElem?_eq_some_iff.mp hat).1, hat]
          · intro later other hlater hother
            rw [List.getElem?_append] at hother
            split_ifs at hother
            · exact hlast later other hlater hother
            · rw [List.mem_singleton.mp (List.mem_of_getElem? hother)]
              exact hmem
        · right
          refine ⟨fun other hother => ?_, hindex⟩
          rcases List.mem_append.mp hother with hfront | hlast
          · exact hnone other hfront
          · rw [List.mem_singleton.mp hlast]
            exact hmem

/-- The loop compares with the last acknowledged head. -/
theorem le_syncedUntilIndex_iff (heads listing : List χ) (position : ℕ) :
    asI32 position ≤ syncedUntilIndex heads listing ↔ NotBehind listing heads position := by
  rcases syncedUntilIndex_cases heads listing with ⟨last, hlast, hindex⟩ | ⟨hnone, hindex⟩
  · rw [hindex]
    constructor
    · intro hle
      exact .inl ⟨last, hlast, hle⟩
    · rintro (⟨other, hother, hle⟩ | ⟨hnone, -⟩)
      · rwa [hlast.unique hother]
      · obtain ⟨⟨head, hat, hhead⟩, -⟩ := hlast
        exact absurd hhead (hnone head (List.mem_of_getElem? hat))
  · rw [hindex]
    constructor
    · intro hle
      exact .inr ⟨hnone, hle⟩
    · rintro (⟨other, ⟨⟨head, hat, hhead⟩, -⟩, -⟩ | ⟨-, hle⟩)
      · exact absurd hhead (hnone head (List.mem_of_getElem? hat))
      · exact hle

theorem asI32_of_lt {position : ℕ} (hposition : position < 2 ^ 31) :
    asI32 position = position :=
  Int.bmod_eq_of_le (by omega) (by omega)

/-- Among fewer than 2³¹ changes, an acknowledged head is at the position or after it. -/
theorem notBehind_iff {listing heads : List χ} (hlength : listing.length < 2 ^ 31)
    {position : ℕ} (hposition : position < listing.length) :
    NotBehind listing heads position ↔
      ∃ later head, position ≤ later ∧ listing[later]? = some head ∧ head ∈ heads := by
  have hsmall : asI32 position = position := asI32_of_lt (by omega)
  rw [NotBehind, hsmall]
  constructor
  · rintro (⟨last, ⟨⟨head, hat, hhead⟩, -⟩, hle⟩ | ⟨-, hle⟩)
    · have hlast := (List.getElem?_eq_some_iff.mp hat).1
      rw [asI32_of_lt (by omega)] at hle
      exact ⟨last, head, by omega, hat, hhead⟩
    · omega
  · rintro ⟨later, head, hle, hat, hhead⟩
    rcases syncedUntilIndex_cases heads listing with ⟨last, hlast, -⟩ | ⟨hnone, -⟩
    · have hbound := (List.getElem?_eq_some_iff.mp hlast.1.choose_spec.1).1
      have hlater : later ≤ last := by
        by_contra hlt
        exact hlast.2 later head (by omega) hat hhead
      refine .inl ⟨last, hlast, ?_⟩
      rw [asI32_of_lt (by omega)]
      omega
    · exact absurd hhead (hnone head (List.mem_of_getElem? hat))

/-! ## Commits that are shown as synced -/

/-- An acknowledged head or a causal ancestor of one. -/
def Acked (dependsOn : χ → χ → Prop) (heads : List χ) (hash : χ) : Prop :=
  ∃ head ∈ heads, Relation.ReflTransGen dependsOn head hash

/-- A commit shown as synced is on the server. -/
def SyncedAreAcked (dependsOn : χ → χ → Prop) (heads : List χ)
    (infos : List (CommitInfo κ χ)) : Prop :=
  ∀ info ∈ infos, info.synced = true → Acked dependsOn heads info.hash

namespace IngesterEnv

variable (env : IngesterEnv κ χ)

/-- The last heads that the server acknowledged for the branch that is checked out. -/
def acknowledged : List χ :=
  (env.checkedOut.bind env.lastAckedHeads).getD []

/-- Both documents of the branch have the change. -/
def InBoth (branch : κ) (hash : χ) : Prop :=
  hash ∈ ((env.getShadowChanges branch).getD []).map (·.hash) ∧
    hash ∈ ((env.getCanonicalChanges branch).getD []).map (·.hash)

/-- The hashes of the changes, in the order in which `get_changes` goes through them. -/
def hashes (branch : κ) : List χ := (env.listing branch).map (·.hash)

/-- Both documents list their changes causally. -/
def CausallyLists (dependsOn : χ → χ → Prop) : Prop :=
  ∀ branch,
    CausallyListed dependsOn (((env.getShadowChanges branch).getD []).map (·.hash)) ∧
    CausallyListed dependsOn (((env.getCanonicalChanges branch).getD []).map (·.hash))

/-- A commit of the branch that is checked out, which both documents have and whose position
counts as not behind the last acknowledged head. -/
structure CountsAsSynced (branch : κ) (position : ℕ) (hash : χ) : Prop where
  checkedOut : env.checkedOut = some branch
  listed : ∃ change, (env.listing branch)[position]? = some change ∧ change.hash = hash ∧
    onBranch branch (env.toCommitInfo change) = true
  inBoth : env.InBoth branch hash
  notBehind : NotBehind (env.hashes branch) env.acknowledged position

/-- Of the commits that count as synced, one that is listed before the last acknowledged head and
concurrent to it is another such head, or in the past of another one.  Where positions wrap around,
one that is listed behind all of these heads is in the past of one that is not listed. -/
structure ShownByAncestry (dependsOn : χ → χ → Prop) : Prop where
  before : ∀ branch position last hash head, env.CountsAsSynced branch position hash →
    LastAcked (env.hashes branch) env.acknowledged last →
    (env.hashes branch)[last]? = some head → position < last →
    Concurrent dependsOn hash head →
      hash ∈ env.acknowledged ∨ ∃ other ∈ env.acknowledged, Relation.TransGen dependsOn other hash
  wrapped : ∀ branch position hash, env.CountsAsSynced branch position hash →
    (∀ later head, position ≤ later → (env.hashes branch)[later]? = some head →
      head ∉ env.acknowledged) →
    ∃ other ∈ env.acknowledged, other ∉ env.hashes branch ∧ Relation.TransGen dependsOn other hash

variable {env}

omit [DecidableEq κ] in
/-- A listed change that is not in the symmetric difference is in both documents. -/
theorem inBoth_iff_of_mem {branch : κ} {position : ℕ} {change : ChangeMetadata χ}
    (hat : (env.listing branch)[position]? = some change) :
    (!env.intersectingHash branch change.hash) = true ↔ env.InBoth branch change.hash := by
  have hmem : change.hash ∈ ((env.getShadowChanges branch).getD []).map (·.hash) ∨
      change.hash ∈ ((env.getCanonicalChanges branch).getD []).map (·.hash) := by
    rcases List.mem_append.mp (List.mem_of_getElem? hat) with hshadow | hcanonical
    · exact .inl (List.mem_map_of_mem hshadow)
    · exact .inr (List.mem_map_of_mem (List.mem_of_mem_filter hcanonical))
  rw [intersectingHash, InBoth]
  rcases hmem with hmem | hmem <;> simp [hmem]

/-- What is shown of a listed change. -/
theorem exists_synced_iff {branch : κ} (hbranch : env.checkedOut = some branch) (hash : χ) :
    (∃ info ∈ env.getChanges, info.synced = true ∧ info.hash = hash) ↔
      ∃ position change, (env.listing branch)[position]? = some change ∧ change.hash = hash ∧
        onBranch branch (env.toCommitInfo change) ∧ env.InBoth branch change.hash ∧
        NotBehind ((env.listing branch).map (·.hash)) env.acknowledged position := by
  have hacknowledged : env.acknowledged = (env.lastAckedHeads branch).getD [] := by
    rw [acknowledged, hbranch]
    rfl
  have hhashes : ((env.listing branch).map env.toCommitInfo).map (·.hash) =
      (env.listing branch).map (·.hash) := by
    rw [List.map_map]
    rfl
  rw [getChanges, hbranch, ← hhashes, hacknowledged]
  simp only [List.mem_filterMap]
  constructor
  · rintro ⟨info, ⟨⟨shown, position⟩, hentry, hinfo⟩, hsynced, hhash⟩
    obtain ⟨change, hat, rfl⟩ : ∃ change, (env.listing branch)[position]? = some change ∧
        env.toCommitInfo change = shown := by
      simpa using List.mem_zipIdx_iff_getElem?.mp hentry
    rw [commitInfo] at hinfo
    obtain ⟨honBranch, heq⟩ := Option.ite_none_right_eq_some.mp hinfo
    cases heq
    rw [Bool.and_eq_true, decide_eq_true_eq] at hsynced
    refine ⟨position, change, hat, hhash, honBranch, ?_, ?_⟩
    · exact (inBoth_iff_of_mem hat).mp hsynced.2
    · exact (le_syncedUntilIndex_iff _ _ position).mp hsynced.1
  · rintro ⟨position, change, hat, hhash, honBranch, hboth, hbehind⟩
    have hentry : (env.toCommitInfo change, position) ∈
        ((env.listing branch).map env.toCommitInfo).zipIdx := by
      apply List.mem_zipIdx_iff_getElem?.mpr
      rw [List.getElem?_map, hat]
      rfl
    refine ⟨_, ⟨_, hentry, if_pos honBranch⟩, ?_, hhash⟩
    rw [Bool.and_eq_true, decide_eq_true_eq]
    exact ⟨(le_syncedUntilIndex_iff _ _ position).mpr hbehind, (inBoth_iff_of_mem hat).mpr hboth⟩

omit [DecidableEq κ] in
/-- What both documents list causally is listed causally. -/
theorem causallyListed_hashes {dependsOn : χ → χ → Prop} (hlists : env.CausallyLists dependsOn)
    (branch : κ) : CausallyListed dependsOn (env.hashes branch) := by
  obtain ⟨hshadow, hcanonical⟩ := hlists branch
  have happend := hshadow.append_filter hcanonical
  rwa [List.filter_map, ← List.map_append] at happend

omit [DecidableEq χ] in
theorem acked_iff {dependsOn : χ → χ → Prop} {heads : List χ} {hash : χ} :
    Acked dependsOn heads hash ↔
      hash ∈ heads ∨ ∃ head ∈ heads, Relation.TransGen dependsOn head hash := by
  constructor
  · rintro ⟨head, hhead, hreach⟩
    rcases Relation.reflTransGen_iff_eq_or_transGen.mp hreach with rfl | hpast
    · exact .inl hhead
    · exact .inr ⟨head, hhead, hpast⟩
  · rintro (hhead | ⟨head, hhead, hpast⟩)
    · exact ⟨hash, hhead, .refl⟩
    · exact ⟨head, hhead, hpast.to_reflTransGen⟩

/-- Among fewer than 2³¹ changes, only those before the last acknowledged head matter. -/
theorem ShownByAncestry.of_lt {dependsOn : χ → χ → Prop}
    (hlength : ∀ branch, (env.hashes branch).length < 2 ^ 31)
    (hbefore : ∀ branch position last hash head, env.CountsAsSynced branch position hash →
      LastAcked (env.hashes branch) env.acknowledged last →
      (env.hashes branch)[last]? = some head → position < last →
      Concurrent dependsOn hash head → hash ∈ env.acknowledged ∨
        ∃ other ∈ env.acknowledged, Relation.TransGen dependsOn other hash) :
    env.ShownByAncestry dependsOn := by
  refine ⟨hbefore, fun branch position hash hcounts hbehind => ?_⟩
  obtain ⟨change, hat, -, -⟩ := hcounts.listed
  have hposition : position < (env.hashes branch).length := by
    rw [hashes, List.length_map]
    exact (List.getElem?_eq_some_iff.mp hat).1
  obtain ⟨later, head, hle, hlater, hhead⟩ :=
    (notBehind_iff (hlength branch) hposition).mp hcounts.notBehind
  exact absurd hhead (hbehind later head hle hlater)

/-- A change that counts as synced is shown so. -/
theorem CountsAsSynced.exists_info {branch : κ} {position : ℕ} {hash : χ}
    (hcounts : env.CountsAsSynced branch position hash) :
    ∃ info ∈ env.getChanges, info.synced = true ∧ info.hash = hash := by
  obtain ⟨change, hat, rfl, honBranch⟩ := hcounts.listed
  exact (exists_synced_iff hcounts.checkedOut change.hash).mpr
    ⟨position, change, hat, rfl, honBranch, hcounts.inBoth, hcounts.notBehind⟩

theorem CountsAsSynced.getElem?_hashes {branch : κ} {position : ℕ} {hash : χ}
    (hcounts : env.CountsAsSynced branch position hash) :
    (env.hashes branch)[position]? = some hash := by
  obtain ⟨change, hat, rfl, -⟩ := hcounts.listed
  rw [hashes, List.getElem?_map, hat, Option.map_some]

/-- What is shown as synced counts so, at some position. -/
theorem exists_countsAsSynced {info : CommitInfo κ χ} (hinfo : info ∈ env.getChanges)
    (hshown : info.synced = true) :
    ∃ branch position, env.CountsAsSynced branch position info.hash := by
  cases hbranch : env.checkedOut with
  | none =>
      rw [getChanges, hbranch] at hinfo
      nomatch hinfo
  | some branch =>
      obtain ⟨position, change, hlisted, hhash, honBranch, hboth, hbehind⟩ :=
        (exists_synced_iff hbranch info.hash).mp ⟨info, hinfo, hshown, rfl⟩
      rw [hhash] at hboth
      exact ⟨branch, position, hbranch, ⟨change, hlisted, hhash, honBranch⟩, hboth, hbehind⟩

omit [DecidableEq κ] in
/-- Where an acknowledged head is listed, the last one is listed there or later. -/
theorem exists_lastAcked {branch : κ} {position : ℕ} {other : χ}
    (hat : (env.hashes branch)[position]? = some other) (hother : other ∈ env.acknowledged) :
    ∃ last head, LastAcked (env.hashes branch) env.acknowledged last ∧ position ≤ last ∧
      (env.hashes branch)[last]? = some head ∧ head ∈ env.acknowledged := by
  rcases syncedUntilIndex_cases env.acknowledged (env.hashes branch) with
    ⟨last, hlast, -⟩ | ⟨hnone, -⟩
  · obtain ⟨head, hatLast, hhead⟩ := hlast.1
    refine ⟨last, head, hlast, ?_, hatLast, hhead⟩
    by_contra hlt
    exact hlast.2 position other (not_le.mp hlt) hat hother
  · exact absurd hother (hnone other (List.mem_of_getElem? hat))

/-- **What is shown as synced is acknowledged exactly where no commit that is concurrent to the last
acknowledged head is listed before it, unless it is acknowledged with another head.** -/
theorem syncedAreAcked_iff {dependsOn : χ → χ → Prop} (hlists : env.CausallyLists dependsOn) :
    SyncedAreAcked dependsOn env.acknowledged env.getChanges ↔ env.ShownByAncestry dependsOn := by
  constructor
  · intro hacked
    constructor
    · intro branch position last hash head hcounts _ _ _ _
      obtain ⟨info, hinfo, hshown, rfl⟩ := hcounts.exists_info
      exact acked_iff.mp (hacked info hinfo hshown)
    · intro branch position hash hcounts hbehind
      have hat := hcounts.getElem?_hashes
      obtain ⟨info, hinfo, hshown, rfl⟩ := hcounts.exists_info
      rcases acked_iff.mp (hacked info hinfo hshown) with hhead | ⟨head, hhead, hpast⟩
      · exact absurd hhead (hbehind position _ le_rfl hat)
      · refine ⟨head, hhead, fun hlisted => ?_, hpast⟩
        -- a listed head comes behind its past
        obtain ⟨later, hbound, rfl⟩ := List.getElem_of_mem hlisted
        have hlater := List.getElem?_eq_getElem hbound
        rcases le_or_gt position later with hle | hlt
        · exact hbehind later _ hle hlater hhead
        · exact (causallyListed_hashes hlists branch).not_transGen hlt.le hlater hat hpast
  · intro hancestry info hinfo hshown
    obtain ⟨branch, position, hcounts⟩ := exists_countsAsSynced hinfo hshown
    have hat := hcounts.getElem?_hashes
    by_cases hlater : ∃ later head, position ≤ later ∧
        (env.hashes branch)[later]? = some head ∧ head ∈ env.acknowledged
    · obtain ⟨later, other, hle, hatLater, hother⟩ := hlater
      obtain ⟨last, head, hlast, hlaterLast, hatLast, hhead⟩ := exists_lastAcked hatLater hother
      rcases (hle.trans hlaterLast).lt_or_eq with hlt | heq
      · rcases (causallyListed_hashes hlists branch).transGen_or_concurrent hlt hat hatLast
          with hpast | hconcurrent
        · exact acked_iff.mpr (.inr ⟨head, hhead, hpast⟩)
        · exact acked_iff.mpr (hancestry.before branch position last info.hash head hcounts
            hlast hatLast hlt hconcurrent)
      · rw [heq, hatLast] at hat
        exact acked_iff.mpr (.inl (Option.some.inj hat ▸ hhead))
    · obtain ⟨other, hother, -, hpast⟩ := hancestry.wrapped branch position info.hash hcounts
        fun later head hle hatLater hhead => hlater ⟨later, head, hle, hatLater, hhead⟩
      exact acked_iff.mpr (.inr ⟨other, hother, hpast⟩)

/-! ## A commit next to an acknowledged head -/

/-- Two changes that were made on the same one. -/
def forked (hash dependency : ℕ) : Prop := (hash = 1 ∨ hash = 2) ∧ dependency = 0

/-- The commit message that names the branch of `forkedEnv`. -/
def forkedMessage : String := "\x7b\"branch_id\":\"pEbmSWqJdBuPadRGm8tDZXgWR6\"\x7d"

/-- Both documents list the two changes, and the server acknowledged some heads. -/
def forkedEnv (heads : List ℕ) : IngesterEnv String ℕ where
  fromStr message :=
    if message = forkedMessage then
      some ⟨none, some "pEbmSWqJdBuPadRGm8tDZXgWR6", none, none, none, none⟩
    else none
  getBranchName _ := some "main"
  showId := id
  showHash := toString
  checkedOut := some "pEbmSWqJdBuPadRGm8tDZXgWR6"
  lastAckedHeads _ := some heads
  getShadowChanges _ := some ([0, 1, 2].map fun hash => ⟨hash, 0, some forkedMessage⟩)
  getCanonicalChanges _ := some ([0, 1, 2].map fun hash => ⟨hash, 0, some forkedMessage⟩)

theorem causallyListed_forked : CausallyListed forked [0, 1, 2] := by
  refine ⟨by decide, ?_⟩
  rintro position hash dependency hat ⟨hhash, rfl⟩
  refine ⟨0, Nat.pos_of_ne_zero ?_, rfl⟩
  rintro rfl
  cases hat
  omega

theorem causallyLists_forked (heads : List ℕ) : (forkedEnv heads).CausallyLists forked :=
  fun _ => ⟨causallyListed_forked, causallyListed_forked⟩

theorem hashes_forked (heads : List ℕ) (branch : String) :
    (forkedEnv heads).hashes branch = [0, 1, 2] := rfl

/-- Where the server has both commits, what is shown as synced is acknowledged. -/
theorem syncedAreAcked_bothHeads :
    SyncedAreAcked forked (forkedEnv [1, 2]).acknowledged (forkedEnv [1, 2]).getChanges := by
  refine (syncedAreAcked_iff (causallyLists_forked [1, 2])).mpr (.of_lt ?_ ?_)
  · intro branch
    rw [hashes_forked]
    decide
  · intro branch position last hash head hcounts hlast hatLast hlt hconcurrent
    obtain ⟨change, hat, hhash, -⟩ := hcounts.listed
    have hposition : [0, 1, 2][position]? = some hash := by
      rw [← hashes_forked [1, 2] branch, hashes, List.getElem?_map, hat, Option.map_some, hhash]
    rw [hashes_forked] at hatLast
    match position, last, hlt with
    | 0, 1, _ | 0, 2, _ =>
        cases hposition
        cases hatLast
        exact absurd (.single ⟨by decide, rfl⟩) hconcurrent.not_right
    | 1, _, _ =>
        cases hposition
        exact .inl List.mem_cons_self
    | position + 2, last, hlt =>
        have hbound := (List.getElem?_eq_some_iff.mp hatLast).1
        simp only [List.length_cons, List.length_nil] at hbound
        omega
    | 0, last + 3, _ => nomatch hatLast

/-- The first of two concurrent commits is shown as synced where the server has only the
second. -/
theorem not_syncedAreAcked_forked :
    (forkedEnv [2]).CausallyLists forked ∧
      ¬ SyncedAreAcked forked (forkedEnv [2]).acknowledged (forkedEnv [2]).getChanges := by
  refine ⟨causallyLists_forked [2], fun hacked => ?_⟩
  have hshown : ∃ info ∈ (forkedEnv [2]).getChanges, info.synced = true ∧ info.hash = 1 := by
    decide
  obtain ⟨info, hinfo, hsynced, hhash⟩ := hshown
  obtain ⟨head, hhead, hreach⟩ := hacked info hinfo hsynced
  rw [hhash] at hreach
  rw [List.mem_singleton.mp hhead] at hreach
  rcases Relation.ReflTransGen.cases_head hreach with heq | ⟨next, ⟨-, rfl⟩, hrest⟩
  · nomatch heq
  · rcases Relation.ReflTransGen.cases_head hrest with heq | ⟨next, ⟨hstep, -⟩, -⟩
    · nomatch heq
    · omega

end IngesterEnv

end Backstitch
