/-
# Polls for binary documents

Several polls for one document can run at once, since a poll is started whenever the
table has no entry yet.  Each of them ends with what its last lookup said and writes
that into the table, whatever the table says by then.  A document that the repo has
found stays available.
-/

import Backstitch.Branches.WakeUps

namespace Backstitch

universe u v w x y

variable {κ : Type u} {ι : Type v} {η : Type w} {χ : Type x} {π : Type y}
  [DecidableEq κ] [DecidableEq ι] [DecidableEq χ] [DecidableEq π]

/-- When a poll ingests the handle that it found, no poll for the same document has
given up and waits to ingest that. -/
def NoneGaveUp (db : BranchDb κ ι η χ π) : SyncAction κ ι η χ π → Prop
  | .ingestBinaryDoc task _ =>
      ∀ id handle other, db.polls task = some (.ended id (some handle)) →
        db.polls other ≠ some (.ended id none)
  | _ => True

/-- Anything but `clear_branch_states`. -/
def KeepsTables (action : SyncAction κ ι η χ π) : Prop :=
  action ≠ .clearBranchStates

namespace BranchDb

variable {links : Finset χ → Finset ι} {db next : BranchDb κ ι η χ π}

/-- Of a document that the table has, no poll says that it is missing, and what polls
and the table have found is available. -/
structure NoneLate (db : BranchDb κ ι η χ π) : Prop where
  notGivenUp : ∀ id handle task, db.binaryStates.lookup id = some (some handle) →
    db.polls task ≠ some (.ended id none)
  available : ∀ id handle, db.binaryStates.lookup id = some (some handle) →
    db.available id ≠ none
  pollAvailable : ∀ id handle task, db.polls task = some (.ended id (some handle)) →
    db.available id ≠ none

omit [DecidableEq χ] [DecidableEq π] in
/-- Steps that leave the table, the polls and the repo alone. -/
theorem NoneLate.of_eq (hlate : db.NoneLate) (hentries : next.binaryStates = db.binaryStates)
    (hpolls : next.polls = db.polls) (havailable : next.available = db.available) :
    next.NoneLate := by
  constructor
  · rw [hentries, hpolls]
    exact hlate.notGivenUp
  · rw [hentries, havailable]
    exact hlate.available
  · rw [hpolls, havailable]
    exact hlate.pollAvailable

omit [DecidableEq π] in
theorem binaryStates_reconcileThen {branch : κ} {outcome : MergeOutcome}
    {rest : Option (SyncCall κ ι η)} (hstep : db.reconcileThen branch outcome rest = some next) :
    next.binaryStates = db.binaryStates ∧ next.polls = db.polls ∧
      next.available = db.available := by
  obtain ⟨sync, result, -, -, rfl⟩ := reconcileThen_eq_some hstep
  exact ⟨rfl, rfl, rfl⟩

/-- The steps that do not touch the table, the polls or the repo. -/
theorem tables_eq_of_step {action : SyncAction κ ι η χ π}
    (hstep : db.step links action = some next)
    (hpoll : ∀ task branch id, action ≠ .trackBinaryDocument task branch id)
    (hlook : ∀ task last, action ≠ .lookUp task last)
    (hnew : ∀ id handle, action ≠ .becomeAvailable id handle)
    (hingest : ∀ task order, action ≠ .ingestBinaryDoc task order)
    (hclear : action ≠ .clearBranchStates) :
    next.binaryStates = db.binaryStates ∧ next.polls = db.polls ∧
      next.available = db.available := by
  cases action with
  | remoteChange branch changes => cases hstep; exact ⟨rfl, rfl, rfl⟩
  | trackBranchDocument branch => cases hstep; exact ⟨rfl, rfl, rfl⟩
  | readBranchDocument branch =>
      obtain ⟨-, -, rfl⟩ := readBranchDocument_eq_some hstep
      exact ⟨rfl, rfl, rfl⟩
  | trackBinaryDocument task branch id => exact absurd rfl (hpoll task branch id)
  | lookUp task last => exact absurd rfl (hlook task last)
  | becomeAvailable id handle => exact absurd rfl (hnew id handle)
  | updateBranchSyncState branch order =>
      obtain ⟨_, _, _, _, _, _, _, _, rfl⟩ := updateBranchSyncState_eq_some hstep
      exact ⟨rfl, rfl, rfl⟩
  | ingestBinaryDoc task order => exact absurd rfl (hingest task order)
  | ingestNext =>
      rcases ingestNext_eq_some hstep with ⟨_, _, _, rfl⟩ |
        ⟨_, _, _, _, _, _, _, ⟨_, rfl⟩ | ⟨_, rfl⟩⟩ <;> exact ⟨rfl, rfl, rfl⟩
  | tryReconcileBranch outcome =>
      rcases reconcile_eq_some hstep with ⟨_, _, hstep⟩ | ⟨_, _, _, _, _, hstep⟩ <;>
        exact binaryStates_reconcileThen hstep
  | commitFsChanges branch change created =>
      obtain ⟨committed, _, hcommit, rfl⟩ := commitFsChanges_eq_some hstep
      obtain ⟨_, _, _, _, _, rfl⟩ := commitToShadow_eq_some hcommit
      exact ⟨rfl, rfl, rfl⟩
  | reinsertHashes branch change =>
      obtain ⟨_, _, _, _, _, rfl⟩ := commitToShadow_eq_some hstep
      exact ⟨rfl, rfl, rfl⟩
  | mergeShadow source target =>
      obtain ⟨_, _, _, _, _, _, _, _, rfl⟩ := mergeShadow_eq_some hstep
      exact ⟨rfl, rfl, rfl⟩
  | markMerge target change =>
      obtain ⟨-, hcommit⟩ := Option.ite_none_right_eq_some.mp hstep
      obtain ⟨_, _, _, _, _, rfl⟩ := commitToShadow_eq_some hcommit
      exact ⟨rfl, rfl, rfl⟩
  | finishMerge target =>
      obtain ⟨_, _, rfl⟩ := finishMerge_eq_some hstep
      exact ⟨rfl, rfl, rfl⟩
  | abandonMerge target =>
      obtain ⟨-, hnext⟩ := Option.ite_none_right_eq_some.mp hstep
      cases hnext
      exact ⟨rfl, rfl, rfl⟩
  | clearBranchStates => exact absurd rfl hclear

/-- **Step lemma.** -/
theorem NoneLate.step (hlate : db.NoneLate) {action : SyncAction κ ι η χ π}
    (hgaveUp : NoneGaveUp db action) (hstep : db.step links action = some next) :
    next.NoneLate := by
  cases action with
  | trackBinaryDocument task branch id =>
      obtain ⟨hunknown, hfree, rfl⟩ := trackBinaryDocument_eq_some hstep
      constructor
      · intro doc handle other hfound
        by_cases heq : other = task
        · simp [heq]
        · simpa [heq] using hlate.notGivenUp doc handle other hfound
      · exact hlate.available
      · intro doc handle other hpoll
        by_cases heq : other = task
        · simp [heq] at hpoll
        · exact hlate.pollAvailable doc handle other (by simpa [heq] using hpoll)
  | lookUp task last =>
      obtain ⟨id, hpoll, rfl | ⟨handle, havailable, rfl⟩⟩ := lookUp_eq_some hstep
      · exact hlate
      · constructor
        · intro doc docHandle other hfound
          by_cases heq : other = task
          · have hhas := hlate.available doc docHandle hfound
            intro hended
            simp only [heq, Function.update_self, Option.some.injEq, Poll.ended.injEq] at hended
            obtain ⟨rfl, rfl⟩ := hended
            exact hhas havailable
          · simpa [heq] using hlate.notGivenUp doc docHandle other hfound
        · exact hlate.available
        · intro doc docHandle other hended
          by_cases heq : other = task
          · simp only [heq, Function.update_self, Option.some.injEq, Poll.ended.injEq] at hended
            obtain ⟨rfl, rfl⟩ := hended
            simp [havailable]
          · exact hlate.pollAvailable doc docHandle other (by simpa [heq] using hended)
  | becomeAvailable id handle =>
      obtain ⟨hnew, hnext⟩ := Option.ite_none_right_eq_some.mp hstep
      cases hnext
      have hgrows : ∀ doc, db.available doc ≠ none →
          Function.update db.available id (some handle) doc ≠ none := by
        intro doc hdoc
        by_cases heq : doc = id
        · simp [heq]
        · simpa [heq] using hdoc
      constructor
      · exact hlate.notGivenUp
      · exact fun doc docHandle hfound => hgrows doc (hlate.available doc docHandle hfound)
      · exact fun doc docHandle task hpoll =>
          hgrows doc (hlate.pollAvailable doc docHandle task hpoll)
  | ingestBinaryDoc task order =>
      obtain ⟨id, handle, -, hended, -, rfl⟩ := ingestBinaryDoc_eq_some hstep
      have hothers : ∀ doc result other,
          Function.update db.polls task none other = some (.ended doc result) →
            db.polls other = some (.ended doc result) := by
        intro doc result other hother
        by_cases heq : other = task
        · simp [heq] at hother
        · simpa [heq] using hother
      constructor
      · intro doc docHandle other hfound hother
        by_cases heq : doc = id
        · subst heq
          change (db.binaryStates.insert doc handle).lookup doc = _ at hfound
          rw [Finmap.lookup_insert] at hfound
          cases hfound
          exact hgaveUp doc docHandle other hended (hothers doc none other hother)
        · change (db.binaryStates.insert id handle).lookup doc = _ at hfound
          rw [Finmap.lookup_insert_of_ne _ heq] at hfound
          exact hlate.notGivenUp doc docHandle other hfound (hothers doc none other hother)
      · intro doc docHandle hfound
        by_cases heq : doc = id
        · subst heq
          change (db.binaryStates.insert doc handle).lookup doc = _ at hfound
          rw [Finmap.lookup_insert] at hfound
          cases hfound
          exact hlate.pollAvailable doc docHandle task hended
        · change (db.binaryStates.insert id handle).lookup doc = _ at hfound
          rw [Finmap.lookup_insert_of_ne _ heq] at hfound
          exact hlate.available doc docHandle hfound
      · exact fun doc docHandle other hother =>
          hlate.pollAvailable doc docHandle other (hothers doc (some docHandle) other hother)
  | clearBranchStates =>
      obtain ⟨-, rfl⟩ := clearBranchStates_eq_some hstep
      constructor
      · intro doc docHandle task hfound
        exact absurd hfound (by simp)
      · intro doc docHandle hfound
        exact absurd hfound (by simp)
      · exact hlate.pollAvailable
  | _ =>
      obtain ⟨hentries, hpolls, havailable⟩ :=
        tables_eq_of_step hstep nofun nofun nofun nofun nofun
      exact hlate.of_eq hentries hpolls havailable

/-- A found document is still found after a step that leaves the tables. -/
theorem NoneLate.found_of_step (hlate : db.NoneLate) {action : SyncAction κ ι η χ π}
    (hkeeps : KeepsTables action) (hstep : db.step links action = some next) {id : ι}
    (hfound : ∃ handle, db.binaryStates.lookup id = some (some handle)) :
    ∃ handle, next.binaryStates.lookup id = some (some handle) := by
  cases action with
  | trackBinaryDocument task branch doc =>
      obtain ⟨-, -, rfl⟩ := trackBinaryDocument_eq_some hstep
      exact hfound
  | lookUp task last =>
      obtain ⟨doc, -, rfl | ⟨handle, -, rfl⟩⟩ := lookUp_eq_some hstep
      · exact hfound
      · exact hfound
  | becomeAvailable doc handle =>
      obtain ⟨-, hnext⟩ := Option.ite_none_right_eq_some.mp hstep
      cases hnext
      exact hfound
  | ingestBinaryDoc task order =>
      obtain ⟨doc, result, -, hended, -, rfl⟩ := ingestBinaryDoc_eq_some hstep
      show ∃ handle, (db.binaryStates.insert doc result).lookup id = some (some handle)
      by_cases heq : id = doc
      · subst heq
        rw [Finmap.lookup_insert]
        cases result with
        | none =>
            obtain ⟨handle, hfound⟩ := hfound
            exact absurd hended (hlate.notGivenUp id handle task hfound)
        | some handle => exact ⟨handle, rfl⟩
      · rwa [Finmap.lookup_insert_of_ne _ heq]
  | clearBranchStates => exact absurd rfl hkeeps
  | _ =>
      obtain ⟨hentries, -, -⟩ := tables_eq_of_step hstep nofun nofun nofun nofun nofun
      rwa [hentries]

theorem noneLate_of_reachable (hreach : (syncSystem links).Reachable NoneGaveUp db) :
    db.NoneLate := by
  apply hreach.invariant
  · intro start ⟨_, hentries, _, _, _, hpolls⟩
    constructor
    · intro id handle task hfound
      rw [hentries] at hfound
      exact absurd hfound (by simp)
    · intro id handle hfound
      rw [hentries] at hfound
      exact absurd hfound (by simp)
    · intro id handle task hpoll
      rw [hpolls task] at hpoll
      nomatch hpoll
  · exact fun _ _ _ hlate hgaveUp hstep => hlate.step hgaveUp hstep

/-- **In every run in which no handle is ingested while another poll for the same
document has given up, a document once found stays found until the tables are
cleared.** -/
theorem found_of_leads {later : BranchDb κ ι η χ π}
    (hreach : (syncSystem links).Reachable NoneGaveUp db)
    (hleads : (syncSystem links).Leads
      (fun state action => NoneGaveUp state action ∧ KeepsTables action) db later) {id : ι}
    (hfound : ∃ handle, db.binaryStates.lookup id = some (some handle)) :
    ∃ handle, later.binaryStates.lookup id = some (some handle) := by
  induction hleads with
  | refl => exact hfound
  | step hleads hallowed hstep ih =>
      have hlate := noneLate_of_reachable (hreach.leads hleads fun _ _ => And.left)
      exact hlate.found_of_step hallowed.2 hstep ih

end BranchDb

/-! ## Two polls for one document -/

/-- Two polls start; the first looks once, perhaps for the last time, before the
document is there, and the second finds it and ingests the handle. -/
def twoPolls (firstLast : Bool) : List PlainAction :=
  [.trackBranchDocument false, .readBranchDocument false, .trackBinaryDocument false false 7,
    .trackBinaryDocument true false 7, .lookUp false firstLast, .becomeAvailable 7 (),
    .lookUp true false, .ingestBinaryDoc true [], .ingestNext]

/-- What is left of the first poll when it has not given up. -/
def firstPollEnds : List PlainAction :=
  [.lookUp false true, .ingestBinaryDoc false [], .ingestNext]

/-- Where the first poll does not give up, it finds the document as well. -/
theorem patientPoll_found :
    ∃ handle, (plainSystem.after (plainSystem.after twoBranches (twoPolls false))
      firstPollEnds).binaryStates.lookup 7 = some (some handle) := by
  have hstart : plainSystem.Reachable NoneGaveUp twoBranches := .start twoBranches_fresh
  have hquiet : ∀ action ∈ (twoPolls false).take 7, ∀ db, NoneGaveUp db action := by
    simp [twoPolls, NoneGaveUp]
  have hwithin : plainSystem.RunsWithin NoneGaveUp twoBranches (twoPolls false) := by
    apply (System.runsWithin_of_forall hquiet twoBranches).append
    refine ⟨?_, fun _ _ => ⟨trivial, fun _ _ => trivial⟩⟩
    intro id handle other _
    cases other <;> nofun
  have hends : plainSystem.RunsWithin
      (fun state action => NoneGaveUp state action ∧ KeepsTables action)
      (plainSystem.after twoBranches (twoPolls false)) firstPollEnds := by
    refine ⟨⟨trivial, nofun⟩, fun _ hlook => ⟨⟨?_, nofun⟩, fun _ _ => ⟨⟨trivial, nofun⟩, ?_⟩⟩⟩
    · cases hlook
      intro id handle other _
      cases other <;> nofun
    · exact fun _ _ => trivial
  exact BranchDb.found_of_leads (hstart.after hwithin) (System.Leads.refl.after hends)
    ⟨(), by decide⟩

/-- The first poll ingests its miss over the handle. -/
theorem latePoll_loses_handle : ∃ db later : PlainDb,
    plainSystem.Reachable (fun _ _ => True) db ∧
      db.binaryStates.lookup 7 = some (some ()) ∧
      plainSystem.Leads (fun _ action => KeepsTables action) db later ∧
      later.binaryStates.lookup 7 = some none := by
  have hstart : plainSystem.Reachable (fun _ _ => True) twoBranches := .start twoBranches_fresh
  have hreach := hstart.after (System.runsWithin_true _ (twoPolls true))
  have hlate : plainSystem.RunsWithin (fun _ action => KeepsTables action)
      (plainSystem.after twoBranches (twoPolls true)) [.ingestBinaryDoc false []] :=
    ⟨nofun, fun _ _ => trivial⟩
  exact ⟨_, _, hreach, by decide, System.Leads.refl.after hlate, by decide⟩

end Backstitch
