/-
# The diff of a commit

The changes of the checked out branch are ingested into a list of hashes and a map.  The diff
of a selected commit starts from the hash that is listed directly before it, whichever commit
that is, and from the fork point where there is none.  So the diffs start from the past where the
history is a chain, up to its setup commits.
-/

import Backstitch.Branches.ForkPoints
import Backstitch.Library.Run
import Backstitch.Project.ChangeIngester
import Mathlib.Logic.Function.Basic

namespace Backstitch

universe u v

inductive RequestDiffError
  | noDiffAvailable
  | commitNotFound
  | noBranchCheckedOut
  | branchesDiverge
  deriving DecidableEq

def RequestDiffError.message : RequestDiffError → String
  | .noDiffAvailable => "No diff available for selection"
  | .commitNotFound => "the selected hash is invalid!"
  | .noBranchCheckedOut => "no branch is checked out!"
  | .branchesDiverge => "no previous change found!"

structure DiffId (κ : Type u) (χ : Type v) where
  before : HistoryRef κ χ
  after : HistoryRef κ χ
  deriving DecidableEq

/-- What `request_diff` is called with, and the title that is shown. -/
structure DiffRequest (κ : Type u) (χ : Type v) where
  diffId : DiffId κ χ
  title : String
  deriving DecidableEq

/-- The changes as the API has them. -/
structure IngestedChanges (κ : Type u) (χ : Type v) where
  history : Option (List χ)
  changes : χ → Option (CommitInfo κ χ)

variable {κ : Type u} {χ : Type v} [DecidableEq χ]

/-- Subtraction in `usize`, which panics below zero where overflow is checked, and wraps
around where it is not. -/
def usizeSub (overflowChecks : Bool) (first second : ℕ) : Run ℕ :=
  if second ≤ first then .done (first - second)
  else if overflowChecks then .panic
  else .done (first + 2 ^ 64 - second)

/-- The hash that is listed before the first occurrence of the selected one. -/
def previousHash (overflowChecks : Bool) (history : List χ) (selected : χ) : Run (Option χ) :=
  match history.findIdx? (· = selected) with
  | none => .done none
  | some i => (usizeSub overflowChecks i 1).bind fun index => .done history[index]?

def CommitInfo.isSetup (change : CommitInfo κ χ) : Bool :=
  match change.metadata with
  | none => false
  | some metadata => metadata.isSetup.getD false

namespace IngestedChanges

/-- One change more. -/
def ingest (ingested : IngestedChanges κ χ) (change : CommitInfo κ χ) : IngestedChanges κ χ where
  history := ingested.history.map (· ++ [change.hash])
  changes := Function.update ingested.changes change.hash (some change)

/-- `ingest_changes`. -/
def ingestChanges (infos : List (CommitInfo κ χ)) : IngestedChanges κ χ :=
  infos.foldl ingest { history := some [], changes := fun _ => none }

omit [DecidableEq χ] in
def getBranchHistory (ingested : IngestedChanges κ χ) : List χ := ingested.history.getD []

/-- `try_get_diff`, up to the call of `request_diff`. -/
def tryGetDiff (overflowChecks : Bool) (humanTimestamp : ℤ → String)
    (ingested : IngestedChanges κ χ) (branchState : Option (Branch κ χ)) (selected : χ) :
    Run (Except RequestDiffError (DiffRequest κ χ)) :=
  match ingested.changes selected with
  | none => .done (.error .commitNotFound)
  | some change =>
      if change.isSetup then .done (.error .noDiffAvailable)
      else
        (previousHash overflowChecks ingested.getBranchHistory selected).bind fun prevHash =>
          match branchState with
          | none => .done (.error .noBranchCheckedOut)
          | some branchState =>
              match
                match prevHash with
                | some prevHash => some {prevHash}
                | none => branchState.forkedFrom.map (·.heads)
              with
              | none => .done (.error .branchesDiverge)
              | some headsBefore =>
                  .done (.ok {
                    diffId := {
                      before := { branch := branchState.id, heads := headsBefore }
                      after := { branch := branchState.id, heads := {change.hash} } }
                    title := "Showing changes from " ++ change.summary ++ " - " ++
                      humanTimestamp change.timestamp })

/-! ## What is ingested -/

/-- **The history lists the hashes of the changes, and the map has a change of each.** -/
theorem ingestChanges_spec (infos : List (CommitInfo κ χ)) :
    (ingestChanges infos).history = some (infos.map (·.hash)) ∧
      ∀ hash, (ingestChanges infos).changes hash = none ↔ hash ∉ infos.map (·.hash) := by
  induction infos using List.reverseRecOn with
  | nil => exact ⟨rfl, fun hash => by simp [ingestChanges]⟩
  | append_singleton front change ih =>
      have hlast : ingestChanges (front ++ [change]) = (ingestChanges front).ingest change := by
        rw [ingestChanges, List.foldl_append]
        rfl
      rw [hlast]
      constructor
      · simp [ingest, ih.1]
      · intro hash
        by_cases hhash : hash = change.hash
        · simp [ingest, hhash]
        · simp [ingest, ih.2, hhash]

end IngestedChanges

/-! ## The hash before -/

/-- A hash is listed directly before the first occurrence of another. -/
def ListedBefore {χ : Type v} (history : List χ) (previous selected : χ) : Prop :=
  ∃ front rest, history = front ++ previous :: selected :: rest ∧
    selected ∉ front ++ [previous]

theorem findIdx?_of_not_mem {front : List χ} {selected : χ} (rest : List χ)
    (hfront : selected ∉ front) :
    (front ++ selected :: rest).findIdx? (· = selected) = some front.length := by
  have hnone : front.findIdx? (fun hash => decide (hash = selected)) = none := by
    rw [List.findIdx?_eq_none_iff]
    intro hash hhash
    exact decide_eq_false fun heq => hfront (heq ▸ hhash)
  rw [List.findIdx?_append, hnone]
  simp [List.findIdx?_cons]

/-- **Behind another commit, that one's hash is found.** -/
theorem previousHash_of_listedBefore (overflowChecks : Bool) {history : List χ}
    {previous selected : χ} (hbefore : ListedBefore history previous selected) :
    previousHash overflowChecks history selected = .done (some previous) := by
  obtain ⟨front, rest, rfl, hfront⟩ := hbefore
  have hindex := findIdx?_of_not_mem rest hfront
  rw [List.append_assoc, List.singleton_append] at hindex
  have hlength : (front ++ [previous]).length = front.length + 1 := List.length_append
  rw [previousHash, hindex, hlength]
  simp [usizeSub, Run.bind]

/-- **At the head of the list, the position of the hash before underflows.** -/
theorem previousHash_cons (history : List χ) (selected : χ) :
    previousHash true (selected :: history) selected = .panic := by
  simp [previousHash, usizeSub, Run.bind, List.findIdx?_cons]

omit [DecidableEq χ] in
/-- A listed hash is at the head, or there is one before it. -/
theorem head_or_listedBefore {history : List χ} {selected : χ} (hmem : selected ∈ history) :
    (∃ rest, history = selected :: rest) ∨ ∃ previous, ListedBefore history previous selected := by
  obtain ⟨front, rest, rfl, hfront⟩ := List.eq_append_cons_of_mem hmem
  rcases List.eq_nil_or_concat front with rfl | ⟨front, previous, rfl⟩
  · exact .inl ⟨rest, rfl⟩
  · exact .inr ⟨previous, front, rest, by simp, by simpa using hfront⟩

omit [DecidableEq χ] in
/-- There is one hash before the first occurrence of a hash. -/
theorem ListedBefore.unique {history : List χ} {first second selected : χ}
    (hfirst : ListedBefore history first selected)
    (hsecond : ListedBefore history second selected) : first = second := by
  classical
  have hdone := previousHash_of_listedBefore true hfirst
  rw [previousHash_of_listedBefore true hsecond] at hdone
  exact (Option.some.inj (Run.done.inj hdone)).symm

omit [DecidableEq χ] in
theorem ListedBefore.head?_ne {history : List χ} {previous selected : χ}
    (hbefore : ListedBefore history previous selected) : history.head? ≠ some selected := by
  obtain ⟨front, rest, rfl, hfront⟩ := hbefore
  intro hhead
  apply hfront
  cases front with
  | nil => simpa using hhead.symm
  | cons first front => simpa using .inl (Option.some.inj hhead).symm

/-! ## Diffs that start from the past -/

namespace IngestedChanges

/-- No position underflows, and the request, if it comes to one, starts from ancestors of the
commit, which are the heads of the fork point where the commit is listed first. -/
def StartsFromPast (dependsOn : χ → χ → Prop) (humanTimestamp : ℤ → String)
    (ingested : IngestedChanges κ χ) (branchState : Option (Branch κ χ)) (selected : χ) : Prop :=
  ∀ overflowChecks, ∃ result,
    ingested.tryGetDiff overflowChecks humanTimestamp branchState selected = .done result ∧
      ∀ request, result = .ok request →
        (∀ head ∈ request.diffId.before.heads, Relation.TransGen dependsOn selected head) ∧
        (ingested.getBranchHistory.head? = some selected →
          (branchState.bind (·.forkedFrom)).map (·.heads) = some request.diffId.before.heads)

/-- The selected commit is one that no diff is shown for. -/
def Undiffable (ingested : IngestedChanges κ χ) (selected : χ) : Prop :=
  ∀ change, ingested.changes selected = some change → change.isSetup

variable {dependsOn : χ → χ → Prop} {humanTimestamp : ℤ → String} {ingested : IngestedChanges κ χ}
  {branchState : Option (Branch κ χ)} {selected : χ}

theorem startsFromPast_of_undiffable (hundiffable : ingested.Undiffable selected) :
    ingested.StartsFromPast dependsOn humanTimestamp branchState selected := by
  intro overflowChecks
  cases hchange : ingested.changes selected with
  | none => exact ⟨.error .commitNotFound, by rw [tryGetDiff, hchange], nofun⟩
  | some change =>
      refine ⟨.error .noDiffAvailable, ?_, nofun⟩
      rw [tryGetDiff, hchange]
      simp only [hundiffable change hchange, if_true]

/-- Behind another commit, the diff starts from that one. -/
theorem tryGetDiff_of_listedBefore (overflowChecks : Bool) {previous : χ}
    {change : CommitInfo κ χ} (hchange : ingested.changes selected = some change)
    (hsetup : change.isSetup = false)
    (hbefore : ListedBefore ingested.getBranchHistory previous selected) :
    ingested.tryGetDiff overflowChecks humanTimestamp branchState selected =
      .done (match branchState with
        | none => .error .noBranchCheckedOut
        | some branchState => .ok {
            diffId := {
              before := { branch := branchState.id, heads := {previous} }
              after := { branch := branchState.id, heads := {change.hash} } }
            title := "Showing changes from " ++ change.summary ++ " - " ++
              humanTimestamp change.timestamp }) := by
  rw [tryGetDiff, hchange]
  simp only [hsetup, previousHash_of_listedBefore overflowChecks hbefore, Run.bind]
  cases branchState <;> rfl

/-- At the head of the list, the call panics where overflow is checked. -/
theorem tryGetDiff_of_head {history : List χ} {change : CommitInfo κ χ}
    (hchange : ingested.changes selected = some change) (hsetup : change.isSetup = false)
    (hhistory : ingested.getBranchHistory = selected :: history) :
    ingested.tryGetDiff true humanTimestamp branchState selected = .panic := by
  rw [tryGetDiff, hchange]
  simp only [hsetup, hhistory, previousHash_cons, Run.bind]
  rfl

omit [DecidableEq χ] in
theorem exists_of_not_undiffable (hundiffable : ¬ ingested.Undiffable selected) :
    ∃ change, ingested.changes selected = some change ∧ change.isSetup = false := by
  simpa only [Undiffable, not_forall, exists_prop, Bool.not_eq_true] using hundiffable

/-- What has a change is listed. -/
theorem mem_history_of_changes {infos : List (CommitInfo κ χ)} {change : CommitInfo κ χ}
    (hchange : (ingestChanges infos).changes selected = some change) :
    selected ∈ (ingestChanges infos).getBranchHistory := by
  obtain ⟨hhistory, hchanges⟩ := ingestChanges_spec infos
  rw [getBranchHistory, hhistory]
  by_contra hmem
  rw [(hchanges selected).mpr hmem] at hchange
  cases hchange

/-- The diff starts from the past of a commit if no diff is shown for it, or if it is not listed
first and, where a branch is checked out, the commit that is listed directly before it is an
ancestor. -/
theorem startsFromPast_iff_previous (env : IngesterEnv κ χ) [DecidableEq κ] :
    (ingestChanges env.getChanges).StartsFromPast dependsOn humanTimestamp branchState selected ↔
      (ingestChanges env.getChanges).Undiffable selected ∨
      (ingestChanges env.getChanges).getBranchHistory.head? ≠ some selected ∧
        (branchState = none ∨
          ∀ previous,
            ListedBefore (ingestChanges env.getChanges).getBranchHistory previous selected →
            Relation.TransGen dependsOn selected previous) := by
  by_cases hundiffable : (ingestChanges env.getChanges).Undiffable selected
  · simp only [hundiffable, true_or, iff_true]
    exact startsFromPast_of_undiffable hundiffable
  obtain ⟨change, hchange, hsetup⟩ := exists_of_not_undiffable hundiffable
  simp only [hundiffable, false_or]
  rcases head_or_listedBefore (mem_history_of_changes hchange) with ⟨rest, hfirst⟩ |
    ⟨previous, hbefore⟩
  · -- The commit is listed first.
    have hhead : (ingestChanges env.getChanges).getBranchHistory.head? = some selected := by
      rw [hfirst, List.head?_cons]
    constructor
    · intro hstarts
      obtain ⟨result, hdone, -⟩ := hstarts true
      rw [tryGetDiff_of_head hchange hsetup hfirst] at hdone
      cases hdone
    · rintro ⟨hne, -⟩
      exact absurd hhead hne
  · have hdiff : ∀ overflowChecks, (ingestChanges env.getChanges).tryGetDiff overflowChecks
        humanTimestamp branchState selected = _ := fun overflowChecks =>
      tryGetDiff_of_listedBefore overflowChecks hchange hsetup hbefore
    constructor
    · intro hstarts
      refine ⟨hbefore.head?_ne, ?_⟩
      cases branchState with
      | none => exact .inl rfl
      | some branchState =>
          right
          intro other hother
          obtain ⟨result, hdone, hpast⟩ := hstarts false
          rw [hdiff false] at hdone
          cases hdone
          rw [hother.unique hbefore]
          exact (hpast _ rfl).1 previous (Finset.mem_singleton_self previous)
    · rintro ⟨hne, hpast⟩ overflowChecks
      refine ⟨_, hdiff overflowChecks, ?_⟩
      cases branchState with
      | none => exact nofun
      | some branchState =>
          rintro request hrequest
          cases hrequest
          refine ⟨fun head hhead => ?_, fun hfirst => absurd hfirst hne⟩
          rw [Finset.mem_singleton.mp hhead]
          exact (hpast.resolve_left nofun) previous hbefore

/-! ## Histories that are chains -/

/-- Of two concurrent commits, the later one has a setup commit before it, or is one itself, that is
not listed before the earlier one. -/
def ForksAtSetup (dependsOn : χ → χ → Prop) (ingested : IngestedChanges κ χ) : Prop :=
  ∀ front earlier between later rest,
    ingested.getBranchHistory = front ++ earlier :: between ++ later :: rest →
      Concurrent dependsOn earlier later →
        ∃ hash ∈ between ++ [later], ingested.Undiffable hash

variable [DecidableEq κ] {env : IngesterEnv κ χ}

theorem getBranchHistory_ingestChanges :
    (ingestChanges env.getChanges).getBranchHistory = env.getChanges.map (·.hash) := by
  rw [getBranchHistory, (ingestChanges_spec env.getChanges).1, Option.getD_some]

/-- What is shown is listed in the order of the changes. -/
theorem sublist_hashes {branch : κ} (hbranch : env.checkedOut = some branch) :
    (env.getChanges.map (·.hash)).Sublist (env.hashes branch) := by
  have hshown : ∀ (syncedUntil : ℤ) (entries : List (CommitInfo κ χ × ℕ)),
      ((entries.filterMap (env.commitInfo branch syncedUntil)).map (·.hash)).Sublist
        (entries.map (·.1.hash)) := by
    intro syncedUntil entries
    induction entries with
    | nil => exact .slnil
    | cons entry entries ih =>
        rw [List.filterMap_cons, IngesterEnv.commitInfo]
        split_ifs
        · exact ih.cons_cons entry.1.hash
        · exact ih.cons entry.1.hash
  have hhashes : ((env.listing branch).map env.toCommitInfo).zipIdx.map (·.1.hash) =
      env.hashes branch := by
    calc ((env.listing branch).map env.toCommitInfo).zipIdx.map (·.1.hash)
        = (((env.listing branch).map env.toCommitInfo).zipIdx.map Prod.fst).map (·.hash) := by
          rw [List.map_map]
          rfl
      _ = ((env.listing branch).map env.toCommitInfo).map (·.hash) := by
          rw [List.zipIdx_map_fst]
      _ = env.hashes branch := by
          rw [List.map_map]
          rfl
  rw [IngesterEnv.getChanges, hbranch, ← hhashes]
  exact hshown _ _

/-- No commit of the history is listed twice, and none has a later one in its past. -/
theorem ordered_history (hlists : env.CausallyLists dependsOn) :
    (ingestChanges env.getChanges).getBranchHistory.Nodup ∧
      (ingestChanges env.getChanges).getBranchHistory.Pairwise
        fun earlier later => ¬ Relation.TransGen dependsOn earlier later := by
  rw [getBranchHistory_ingestChanges]
  cases hbranch : env.checkedOut with
  | none =>
      rw [IngesterEnv.getChanges, hbranch]
      exact ⟨.nil, .nil⟩
  | some branch =>
      have hlisted := IngesterEnv.causallyListed_hashes hlists branch
      exact ⟨(sublist_hashes hbranch).nodup hlisted.1, hlisted.pairwise.sublist
        (sublist_hashes hbranch)⟩

omit [DecidableEq χ] [DecidableEq κ] in
theorem listedBefore_of_nodup {history front rest : List χ} {previous later : χ}
    (hnodup : history.Nodup) (hhistory : history = front ++ previous :: later :: rest) :
    ListedBefore history previous later := by
  refine ⟨front, rest, hhistory, fun hmem => ?_⟩
  rw [hhistory, ← List.singleton_append, ← List.append_assoc] at hnodup
  exact (List.nodup_append.mp hnodup).2.2 later hmem later List.mem_cons_self rfl

omit [DecidableEq χ] [DecidableEq κ] in
/-- Where every commit but setup commits has the one before it in its past, it has all those in its
past that no setup commit separates it from. -/
theorem transGen_of_forall_previous (hnodup : ingested.getBranchHistory.Nodup)
    (hprevious : ∀ selected, ¬ ingested.Undiffable selected → ∀ previous,
      ListedBefore ingested.getBranchHistory previous selected →
        Relation.TransGen dependsOn selected previous)
    {between : List χ} {front : List χ} {earlier later : χ} {rest : List χ}
    (hhistory : ingested.getBranchHistory = front ++ earlier :: between ++ later :: rest)
    (hdiffable : ∀ hash ∈ between ++ [later], ¬ ingested.Undiffable hash) :
    Relation.TransGen dependsOn later earlier := by
  induction between generalizing front earlier with
  | nil =>
      exact hprevious later (hdiffable later (List.mem_singleton_self later)) earlier
        (listedBefore_of_nodup hnodup (by simpa using hhistory))
  | cons next between ih =>
      have hbefore : ingested.getBranchHistory =
          front ++ earlier :: next :: (between ++ later :: rest) := by simpa using hhistory
      have hbehind : ingested.getBranchHistory =
          (front ++ [earlier]) ++ next :: between ++ later :: rest := by simpa using hhistory
      have hnext : Relation.TransGen dependsOn next earlier :=
        hprevious next (hdiffable next List.mem_cons_self) earlier
          (listedBefore_of_nodup hnodup hbefore)
      have hlater : Relation.TransGen dependsOn later next :=
        ih hbehind fun hash hhash => hdiffable hash (List.mem_cons_of_mem next hhash)
      exact hlater.trans hnext

/-- **The diffs of a history start from the past of their commits exactly where its first commit is
a setup commit and, if a branch is checked out, it only forks at setup commits.** -/
theorem startsFromPast_iff (hlists : env.CausallyLists dependsOn) :
    (∀ selected, (ingestChanges env.getChanges).StartsFromPast dependsOn humanTimestamp
      branchState selected) ↔
    (∀ first, (ingestChanges env.getChanges).getBranchHistory.head? = some first →
      (ingestChanges env.getChanges).Undiffable first) ∧
    (branchState = none ∨ (ingestChanges env.getChanges).ForksAtSetup dependsOn) := by
  obtain ⟨hnodup, hordered⟩ := ordered_history hlists
  simp only [startsFromPast_iff_previous]
  constructor
  · intro hstarts
    refine ⟨fun first hfirst => (hstarts first).resolve_right fun hlisted => hlisted.1 hfirst, ?_⟩
    by_cases hbranch : branchState = none
    · exact .inl hbranch
    · refine .inr fun front earlier between later rest hhistory hconcurrent => ?_
      by_contra hnone
      have hdiffable : ∀ hash ∈ between ++ [later],
          ¬ (ingestChanges env.getChanges).Undiffable hash :=
        fun hash hhash hundiffable => hnone ⟨hash, hhash, hundiffable⟩
      refine hconcurrent.not_right (transGen_of_forall_previous hnodup ?_ hhistory hdiffable)
      intro selected hselected
      exact ((hstarts selected).resolve_left hselected).2.resolve_left hbranch
  · rintro ⟨hfirst, hforks⟩ selected
    by_cases hundiffable : (ingestChanges env.getChanges).Undiffable selected
    · exact .inl hundiffable
    refine .inr ⟨fun hhead => hundiffable (hfirst selected hhead), ?_⟩
    refine hforks.imp_right fun hforks previous hbefore => ?_
    obtain ⟨front, rest, hhistory, hnot⟩ := hbefore
    by_contra hpast
    have hlater : ¬ Relation.TransGen dependsOn previous selected := by
      rw [hhistory] at hordered
      have hrest := (List.pairwise_append.mp hordered).2.1
      exact (List.pairwise_cons.mp hrest).1 selected List.mem_cons_self
    have hne : previous ≠ selected := by
      rintro rfl
      exact hnot (List.mem_append_right _ (List.mem_singleton_self previous))
    obtain ⟨hash, hhash, hsetup⟩ := hforks front previous [] selected rest
      (by simpa using hhistory) ⟨hne, hlater, hpast⟩
    rw [List.nil_append, List.mem_singleton] at hhash
    exact hundiffable (hhash ▸ hsetup)

/-! ## A chain, and a fork -/

/-- Changes that were made one after the other. -/
def chained (hash dependency : ℕ) : Prop := hash = dependency + 1

/-- The message of a setup commit of the branch of `forkedEnv`. -/
def setupMessage : String :=
  "\x7b\"branch_id\":\"pEbmSWqJdBuPadRGm8tDZXgWR6\",\"is_setup\":true\x7d"

/-- A setup commit, and two commits that were made on it one after the other. -/
def chainedEnv : IngesterEnv String ℕ where
  fromStr message :=
    if message = setupMessage then
      some ⟨none, some "pEbmSWqJdBuPadRGm8tDZXgWR6", none, none, none, some true⟩
    else (IngesterEnv.forkedEnv []).fromStr message
  getBranchName _ := some "main"
  showId := id
  showHash := toString
  checkedOut := some "pEbmSWqJdBuPadRGm8tDZXgWR6"
  lastAckedHeads _ := none
  getShadowChanges _ := some [⟨0, 0, some setupMessage⟩,
    ⟨1, 1, some IngesterEnv.forkedMessage⟩, ⟨2, 2, some IngesterEnv.forkedMessage⟩]
  getCanonicalChanges _ := some [⟨0, 0, some setupMessage⟩]

theorem causallyListed_chained (count : ℕ) : CausallyListed chained (List.range count) := by
  refine ⟨List.nodup_range, ?_⟩
  rintro position hash dependency hat rfl
  obtain ⟨hbound, hsame⟩ := List.getElem?_eq_some_iff.mp hat
  rw [List.getElem_range] at hsame
  rw [List.length_range] at hbound
  exact ⟨dependency, by omega, List.getElem?_eq_some_iff.mpr
    ⟨by rw [List.length_range]; omega, List.getElem_range _⟩⟩

theorem not_concurrent_chained (first second : ℕ) : ¬ Concurrent chained first second := by
  have hpast : ∀ count hash, Relation.TransGen chained (hash + count + 1) hash := by
    intro count hash
    induction count with
    | zero => exact .single rfl
    | succ count ih => exact .head rfl ih
  intro hconcurrent
  rcases Nat.lt_or_gt_of_ne hconcurrent.ne with hlt | hlt
  · obtain ⟨count, rfl⟩ := Nat.exists_eq_add_of_lt hlt
    exact hconcurrent.not_right (hpast count first)
  · obtain ⟨count, rfl⟩ := Nat.exists_eq_add_of_lt hlt
    exact hconcurrent.not_left (hpast count second)

/-- The main branch, which the changes are on. -/
def forkedMain : Branch String ℕ where
  id := "pEbmSWqJdBuPadRGm8tDZXgWR6"
  forkedFrom := none
  mergeInto := none
  revertedTo := none

/-- The diffs of a chain start from the past of its commits. -/
theorem startsFromPast_chained :
    (ingestChanges chainedEnv.getChanges).StartsFromPast chained (fun _ => "") (some forkedMain) 1 ∧
    (ingestChanges chainedEnv.getChanges).StartsFromPast chained (fun _ => "") (some forkedMain)
      2 := by
  have hlists : chainedEnv.CausallyLists chained :=
    fun _ => ⟨causallyListed_chained 3, causallyListed_chained 1⟩
  have hstarts : ∀ selected, (ingestChanges chainedEnv.getChanges).StartsFromPast chained
      (fun _ => "") (some forkedMain) selected := by
    refine (startsFromPast_iff hlists).mpr ⟨?_, .inr ?_⟩
    · intro first hfirst change hchange
      have hhead : (ingestChanges chainedEnv.getChanges).getBranchHistory.head? = some 0 := by
        decide
      obtain rfl := Option.some.inj (hhead.symm.trans hfirst)
      have hsetup : ((ingestChanges chainedEnv.getChanges).changes 0).all (·.isSetup) := by
        decide
      rw [hchange] at hsetup
      exact hsetup
    · intro front earlier between later rest _ hconcurrent
      exact absurd hconcurrent (not_concurrent_chained earlier later)
  exact ⟨hstarts 1, hstarts 2⟩

/-- The changes of two clients that committed on the same one. -/
def forkedChanges : IngestedChanges String ℕ :=
  ingestChanges (IngesterEnv.forkedEnv [2]).getChanges

/-- The diff of the second of two concurrent commits starts from the first, and the diff of the
commit that both are made on makes a position underflow. -/
theorem not_startsFromPast_forked :
    (IngesterEnv.forkedEnv [2]).CausallyLists IngesterEnv.forked ∧
      forkedChanges.getBranchHistory = [0, 1, 2] ∧
      ¬ forkedChanges.StartsFromPast IngesterEnv.forked (fun _ => "") (some forkedMain) 2 ∧
      ¬ forkedChanges.StartsFromPast IngesterEnv.forked (fun _ => "") (some forkedMain) 0 := by
  have hhistory : forkedChanges.getBranchHistory = [0, 1, 2] := by
    decide
  have hchanges : ∀ hash ∈ [0, 2], (forkedChanges.changes hash).any (!·.isSetup) := by
    decide
  refine ⟨IngesterEnv.causallyLists_forked [2], hhistory, fun hstarts => ?_, fun hstarts => ?_⟩
  · obtain ⟨change, hchange, hsetup⟩ := (Option.any_eq_true _ _).mp (hchanges 2 (by decide))
    have hbefore : ListedBefore forkedChanges.getBranchHistory 1 2 :=
      ⟨[0], [], hhistory, by decide⟩
    obtain ⟨result, hdone, hpast⟩ := hstarts false
    rw [tryGetDiff_of_listedBefore false hchange (by simpa using hsetup) hbefore] at hdone
    cases hdone
    have hafter := (hpast _ rfl).1 1 (Finset.mem_singleton_self 1)
    obtain ⟨next, ⟨-, rfl⟩, hrest⟩ := Relation.TransGen.head'_iff.mp hafter
    rcases Relation.ReflTransGen.cases_head hrest with heq | ⟨next, ⟨hstep, -⟩, -⟩
    · nomatch heq
    · omega
  · obtain ⟨change, hchange, hsetup⟩ := (Option.any_eq_true _ _).mp (hchanges 0 (by decide))
    obtain ⟨result, hdone, -⟩ := hstarts true
    rw [tryGetDiff_of_head hchange (by simpa using hsetup) hhistory] at hdone
    cases hdone

end IngestedChanges

end Backstitch
