/-
# Shadow and canonical documents converge

Every operation that commits to a shadow document has to see to it that the branch is
reconciled afterwards.  A branch is scheduled when that is still to come; a resolved
branch that is not scheduled has the same changes in both documents, provided that
hashes are reinserted on scheduled branches only.
-/

import Backstitch.Branches.WakeUps

namespace Backstitch

universe u v w x y

variable {κ : Type u} {ι : Type v} {η : Type w} {χ : Type x} {π : Type y}
  [DecidableEq κ] [DecidableEq ι] [DecidableEq χ] [DecidableEq π]

/-- What is left of a call reconciles this branch. -/
def SyncCall.WillReconcile (branch : κ) (sync : BranchSyncState ι χ) : SyncCall κ ι η → Prop
  | .reconciling next => next = branch
  | .ingesting id _ rest => branch ∈ rest ∧ id ∈ sync.canonicalBinaryDocs
  | .ingestReconciling id _ next rest =>
      next = branch ∨ branch ∈ rest ∧ id ∈ sync.canonicalBinaryDocs

namespace BranchDb

/-- The canonical document has a change that the watcher has yet to hand over. -/
def Unhandled (db : BranchDb κ ι η χ π) (branch : κ) : Prop :=
  branch ∈ db.notified ∨ db.readings branch ≠ none

/-- A reconcile of the branch is still to come. -/
def Scheduled (db : BranchDb κ ι η χ π) (branch : κ) (sync : BranchSyncState ι χ) : Prop :=
  db.Unhandled branch ∨ branch ∈ db.merging ∨
    ∃ call, db.call = some call ∧ call.WillReconcile branch sync

/-- No call is running, nothing of the branch is left to do, and no linked document is
pending. -/
structure AtRest (db : BranchDb κ ι η χ π) (branch : κ) (sync : BranchSyncState ι χ) :
    Prop where
  noCall : db.call = none
  handled : ¬ db.Unhandled branch
  merged : branch ∉ db.merging
  resolved : sync.Resolved

end BranchDb

/-- Merges never fail, no merge is abandoned, and hashes are reinserted only while a
linked document is pending or a reconcile of the branch is still to come. -/
def KeepsUp (db : BranchDb κ ι η χ π) : SyncAction κ ι η χ π → Prop
  | .tryReconcileBranch outcome => outcome = .ok
  | .reinsertHashes branch _ =>
      ∀ sync, db.branchSyncStates.lookup branch = some sync → sync.Resolved →
        db.Scheduled branch sync
  | .abandonMerge _ => False
  | _ => True

namespace BranchDb

variable {links : Finset χ → Finset ι} {db next : BranchDb κ ι η χ π}

/-- A branch that is resolved has converged or will be reconciled, and a reconcile that
finds nothing to do is right unless the watcher comes again. -/
structure Converging (db : BranchDb κ ι η χ π) (branch : κ) (sync : BranchSyncState ι χ) :
    Prop where
  converged : sync.Resolved → sync.shadowDoc = some (db.canonical branch) ∨
    db.Scheduled branch sync
  tracked : sync.lastReconciled = sync.lastTracked →
    db.canonical branch = sync.lastReconciled ∨ db.Unhandled branch

/-- Every branch is converging, and a reading is of the canonical document as it is,
unless the watcher comes again. -/
structure AllConverging (db : BranchDb κ ι η χ π) : Prop where
  branches : ∀ branch sync, db.branchSyncStates.lookup branch = some sync →
    db.Converging branch sync
  readings : ∀ branch heads linked, db.readings branch = some (heads, linked) →
    heads = db.canonical branch ∨ branch ∈ db.notified

omit [DecidableEq χ] [DecidableEq π] in
/-- What is scheduled and unhandled stays so. -/
theorem Converging.mono {branch : κ} {sync : BranchSyncState ι χ}
    (hconverging : db.Converging branch sync)
    (hcanonical : next.canonical branch = db.canonical branch ∨ next.Unhandled branch)
    (hunhandled : db.Unhandled branch → next.Unhandled branch)
    (hscheduled : db.Scheduled branch sync → next.Scheduled branch sync) :
    next.Converging branch sync := by
  rcases hcanonical with hsame | hnew
  · constructor
    · intro hresolved
      rw [hsame]
      exact (hconverging.converged hresolved).imp_right hscheduled
    · intro hlast
      rw [hsame]
      exact (hconverging.tracked hlast).imp_right hunhandled
  · constructor
    · exact fun _ => .inr (.inl hnew)
    · exact fun _ => .inr hnew

omit [DecidableEq π] in
/-- The watcher's view of one branch after the canonical document of some branch is
written. -/
theorem unhandled_setCanonical (db : BranchDb κ ι η χ π) (branch other : κ) (doc : Finset χ) :
    (db.Unhandled other → (db.setCanonical branch doc).Unhandled other) ∧
      ((db.setCanonical branch doc).canonical other = db.canonical other ∨
        other ∈ (db.setCanonical branch doc).notified) := by
  unfold Unhandled setCanonical
  by_cases hdoc : doc = db.canonical branch
  · simp only [if_pos hdoc]
    refine ⟨id, .inl ?_⟩
    by_cases heq : other = branch
    · rw [heq, Function.update_self, hdoc]
    · rw [Function.update_of_ne heq]
  · simp only [if_neg hdoc, Finset.mem_insert]
    refine ⟨Or.imp_left .inr, ?_⟩
    by_cases heq : other = branch
    · exact .inr (.inl heq)
    · exact .inl (Function.update_of_ne heq _ _)

omit [DecidableEq π] in
/-- Writing a canonical document calls the watcher. -/
theorem AllConverging.setCanonical (hall : db.AllConverging) (branch : κ) (doc : Finset χ) :
    (db.setCanonical branch doc).AllConverging := by
  constructor
  · intro other sync hsync
    obtain ⟨hunhandled, hcanonical⟩ := unhandled_setCanonical db branch other doc
    exact (hall.branches other sync hsync).mono (hcanonical.imp_right .inl) hunhandled
      (Or.imp_left hunhandled)
  · intro other heads linked hreading
    obtain ⟨hunhandled, hcanonical⟩ := unhandled_setCanonical db branch other doc
    rcases hcanonical with hsame | hnew
    · rcases hall.readings other heads linked hreading with heads | hnotified
      · exact .inl (heads.trans hsame.symm)
      · right
        show other ∈ if _ then db.notified else insert branch db.notified
        split
        · exact hnotified
        · exact Finset.mem_insert_of_mem hnotified
    · exact .inr hnew

omit [DecidableEq χ] [DecidableEq π] in
/-- A step that leaves the branches, the documents and the readings alone, and takes
nothing off the schedule. -/
theorem AllConverging.of_eq (hall : db.AllConverging)
    (hsyncs : next.branchSyncStates = db.branchSyncStates)
    (hcanonical : next.canonical = db.canonical) (hreadings : next.readings = db.readings)
    (hnotified : db.notified ⊆ next.notified)
    (hscheduled : ∀ branch sync, db.branchSyncStates.lookup branch = some sync →
      ¬ db.Unhandled branch → db.Scheduled branch sync → next.Scheduled branch sync) :
    next.AllConverging := by
  have hunhandled : ∀ branch, db.Unhandled branch → next.Unhandled branch := by
    intro branch
    rw [Unhandled, Unhandled, hreadings]
    exact Or.imp_left fun hmem => hnotified hmem
  constructor
  · intro branch sync hsync
    rw [hsyncs] at hsync
    apply (hall.branches branch sync hsync).mono
    · exact .inl (by rw [hcanonical])
    · exact hunhandled branch
    · intro hold
      by_cases hbranch : db.Unhandled branch
      · exact .inl (hunhandled branch hbranch)
      · exact hscheduled branch sync hsync hbranch hold
  · intro branch heads linked hreading
    rw [hreadings] at hreading
    rw [hcanonical]
    exact (hall.readings branch heads linked hreading).imp_right fun hmem => hnotified hmem

omit [DecidableEq χ] [DecidableEq π] in
/-- A step that sets one branch and leaves the documents and the readings alone. -/
theorem AllConverging.setSync (hall : db.AllConverging) {branch : κ}
    {set : BranchSyncState ι χ}
    (hsyncs : next.branchSyncStates = db.branchSyncStates.insert branch set)
    (hcanonical : next.canonical = db.canonical) (hreadings : next.readings = db.readings)
    (hnotified : next.notified = db.notified) (hset : next.Converging branch set)
    (hscheduled : ∀ other sync, other ≠ branch → ¬ db.Unhandled other →
      db.Scheduled other sync → next.Scheduled other sync) : next.AllConverging := by
  have hunhandled : ∀ other, db.Unhandled other ↔ next.Unhandled other := by
    intro other
    rw [Unhandled, Unhandled, hreadings, hnotified]
  constructor
  · intro other sync hsync
    rw [hsyncs] at hsync
    by_cases heq : other = branch
    · subst heq
      rw [Finmap.lookup_insert] at hsync
      cases hsync
      exact hset
    · rw [Finmap.lookup_insert_of_ne _ heq] at hsync
      apply (hall.branches other sync hsync).mono
      · exact .inl (by rw [hcanonical])
      · exact (hunhandled other).mp
      · intro hold
        by_cases hother : db.Unhandled other
        · exact .inl ((hunhandled other).mp hother)
        · exact hscheduled other sync heq hother hold
  · intro other heads linked hreading
    rw [hreadings] at hreading
    rw [hcanonical, hnotified]
    exact hall.readings other heads linked hreading

omit [DecidableEq χ] [DecidableEq π] in
/-- What is scheduled by nothing but a call is scheduled by the call. -/
theorem Scheduled.merging_or_call {branch : κ} {sync : BranchSyncState ι χ}
    (hscheduled : db.Scheduled branch sync) (hunhandled : ¬ db.Unhandled branch) :
    branch ∈ db.merging ∨ ∃ call, db.call = some call ∧ call.WillReconcile branch sync :=
  hscheduled.resolve_left hunhandled

omit [DecidableEq χ] [DecidableEq π] in
/-- The schedule of a branch depends on the documents that it links. -/
theorem Scheduled.congr {branch : κ} {sync set : BranchSyncState ι χ}
    (hdocs : set.canonicalBinaryDocs = sync.canonicalBinaryDocs)
    (hscheduled : db.Scheduled branch sync) : db.Scheduled branch set := by
  refine hscheduled.imp_right (Or.imp_right fun ⟨call, hcall, hwill⟩ => ⟨call, hcall, ?_⟩)
  cases call with
  | reconciling next => exact hwill
  | ingesting found handle rest =>
      rw [SyncCall.WillReconcile, hdocs]
      exact hwill
  | ingestReconciling found handle next rest =>
      rw [SyncCall.WillReconcile, hdocs]
      exact hwill

omit [DecidableEq χ] [DecidableEq π] in
/-- The watcher reads the canonical document as it is. -/
theorem AllConverging.readBranchDocument (hall : db.AllConverging) {branch : κ}
    (hstep : db.readBranchDocument links branch = some next) : next.AllConverging := by
  obtain ⟨-, -, rfl⟩ := readBranchDocument_eq_some hstep
  have hunhandled : ∀ other, db.Unhandled other → other ∈ db.notified.erase branch ∨
      Function.update db.readings branch
        (some (db.canonical branch, links (db.canonical branch))) other ≠ none := by
    intro other hold
    by_cases heq : other = branch
    · right
      rw [heq, Function.update_self]
      nofun
    · rw [Finset.mem_erase, Function.update_of_ne heq]
      exact hold.imp_left fun hmem => ⟨heq, hmem⟩
  constructor
  · intro other sync hsync
    refine (hall.branches other sync hsync).mono ?_ (hunhandled other) ?_
    · exact .inl rfl
    · exact Or.imp_left (hunhandled other)
  · intro other heads linked hreading
    change Function.update db.readings branch _ other = some (heads, linked) at hreading
    by_cases heq : other = branch
    · subst heq
      rw [Function.update_self] at hreading
      cases hreading
      exact .inl rfl
    · rw [Function.update_of_ne heq] at hreading
      refine (hall.readings other heads linked hreading).imp_right fun hmem => ?_
      exact Finset.mem_erase.mpr ⟨heq, hmem⟩

omit [DecidableEq π] in
/-- A commit to the shadow document of a branch that is scheduled afterwards. -/
theorem AllConverging.commitToShadow (hall : db.AllConverging) {branch : κ} {change : χ}
    {created : Finset ι} {committed : BranchDb κ ι η χ π}
    (hstep : db.commitToShadow links branch change created = some committed)
    (hsyncs : next.branchSyncStates = committed.branchSyncStates)
    (hcanonical : next.canonical = db.canonical) (hreadings : next.readings = db.readings)
    (hnotified : next.notified = db.notified)
    (hbranch : ∀ sync set, db.branchSyncStates.lookup branch = some sync →
      set.canonicalBinaryDocs = sync.canonicalBinaryDocs → set.Resolved →
        next.Scheduled branch set)
    (hscheduled : ∀ other sync, ¬ db.Unhandled other → db.Scheduled other sync →
      next.Scheduled other sync) : next.AllConverging := by
  obtain ⟨sync, doc, hsync, hdoc, -, rfl⟩ := commitToShadow_eq_some hstep
  have hold := hall.branches branch sync hsync
  refine hall.setSync hsyncs hcanonical hreadings hnotified ?_ fun other sync _ =>
    hscheduled other sync
  constructor
  · exact fun hresolved => .inr (hbranch sync _ hsync rfl hresolved)
  · intro hlast
    rw [hcanonical, Unhandled, hreadings, hnotified]
    exact hold.tracked hlast

omit [DecidableEq π] in
/-- A reconcile that does not fail: the branch has converged, or the watcher comes
again. -/
theorem AllConverging.reconcileThen (hall : db.AllConverging) {branch : κ}
    {rest : Option (SyncCall κ ι η)}
    (hrest : ∀ call other (sync : BranchSyncState ι χ), db.call = some call → other ≠ branch →
      call.WillReconcile other sync → ∃ later, rest = some later ∧ later.WillReconcile other sync)
    (hstep : db.reconcileThen branch .ok rest = some next) : next.AllConverging := by
  obtain ⟨sync, result, hsync, hresult, rfl⟩ := reconcileThen_eq_some hstep
  have hwritten := hall.setCanonical branch result.2.1
  have hold := hwritten.branches branch sync hsync
  have hok : result.2.2 = true := by
    rw [← hresult, BranchSyncState.tryReconcileBranch_ok_iff]
    exact fun _ => rfl
  have hcanonical : (db.setCanonical branch result.2.1).canonical branch = result.2.1 :=
    Function.update_self ..
  refine hwritten.setSync rfl rfl rfl rfl ?_ ?_
  · by_cases hmerges : sync.Merges
    · rw [BranchSyncState.tryReconcileBranch, if_pos hmerges] at hresult
      subst hresult
      constructor
      · exact fun _ => .inl (congrArg some hcanonical.symm)
      · exact fun _ => .inl hcanonical
    · rw [BranchSyncState.tryReconcileBranch_of_not_merges hmerges] at hresult
      subst hresult
      constructor
      · intro hresolved
        obtain ⟨hlast, hshadow⟩ := not_not.mp fun hnot => hmerges ⟨hresolved, hnot⟩
        rcases hold.tracked hlast with hsame | hunhandled
        · exact .inl (hshadow.trans (congrArg some hsame.symm))
        · exact .inr (.inl hunhandled)
      · exact hold.tracked
  · intro other otherSync hne hunhandled hscheduled
    rcases hscheduled.merging_or_call hunhandled with hmerging | ⟨call, hcall, hwill⟩
    · exact .inr (.inl hmerging)
    · obtain ⟨later, hlater, hwill⟩ := hrest call other otherSync hcall hne hwill
      refine .inr (.inr ⟨later, ?_, hwill⟩)
      show (if result.2.2 then rest else none) = some later
      rw [if_pos hok, hlater]

omit [DecidableEq χ] [DecidableEq π] in
/-- The next branch of an ingest is reconciled next if it links the document. -/
theorem AllConverging.ingestNext (hall : db.AllConverging) (hstep : db.ingestNext = some next) :
    next.AllConverging := by
  rcases ingestNext_eq_some hstep with ⟨id, handle, hcall, rfl⟩ |
    ⟨id, handle, branch, rest, sync, hcall, hsync, ⟨hlinked, rfl⟩ | ⟨hlinked, rfl⟩⟩
  · refine hall.of_eq rfl rfl rfl (Finset.Subset.refl _) fun other otherSync _ hunhandled hold => ?_
    rcases hold.merging_or_call hunhandled with hmerging | ⟨call, hnow, hwill⟩
    · exact .inr (.inl hmerging)
    · cases hcall.symm.trans hnow
      nomatch hwill.1
  · refine hall.setSync rfl rfl rfl rfl ?_ ?_
    · have hold := hall.branches branch sync hsync
      constructor
      · exact fun _ => .inr (.inr (.inr ⟨_, rfl, .inl rfl⟩))
      · exact hold.tracked
    · intro other otherSync hne hunhandled hold
      rcases hold.merging_or_call hunhandled with hmerging | ⟨call, hnow, hwill⟩
      · exact .inr (.inl hmerging)
      · cases hcall.symm.trans hnow
        obtain ⟨hmem, hdocs⟩ := hwill
        exact .inr (.inr ⟨_, rfl, .inr ⟨(List.mem_cons.mp hmem).resolve_left hne, hdocs⟩⟩)
  · refine hall.of_eq rfl rfl rfl (Finset.Subset.refl _)
      fun other otherSync hother hunhandled hold => ?_
    rcases hold.merging_or_call hunhandled with hmerging | ⟨call, hnow, hwill⟩
    · exact .inr (.inl hmerging)
    · cases hcall.symm.trans hnow
      obtain ⟨hmem, hdocs⟩ := hwill
      refine .inr (.inr ⟨_, rfl, (List.mem_cons.mp hmem).resolve_left ?_, hdocs⟩)
      rintro rfl
      cases hsync.symm.trans hother
      exact hlinked hdocs

omit [DecidableEq χ] [DecidableEq π] in
/-- Tracking what the watcher read: a resolved branch is reconciled next. -/
theorem AllConverging.updateBranchSyncState (hall : db.AllConverging) {branch : κ}
    {order : List ι} (hstep : db.updateBranchSyncState branch order = some next) :
    next.AllConverging := by
  obtain ⟨heads, linked, sync, hcall, hreading, -, -, hsync, rfl⟩ :=
    updateBranchSyncState_eq_some hstep
  have hscheduled : ∀ other otherSync, db.Scheduled other otherSync → other ≠ branch →
      other ∈ db.notified ∨ Function.update db.readings branch none other ≠ none ∨
        other ∈ db.merging := by
    intro other otherSync hold hne
    rcases hold with (hnotified | hread) | hmerging | ⟨call, hnow, -⟩
    · exact .inl hnotified
    · exact .inr (.inl (by rwa [Function.update_of_ne hne]))
    · exact .inr (.inr hmerging)
    · cases hcall.symm.trans hnow
  constructor
  · intro other otherSync hother
    change (db.branchSyncStates.insert branch sync).lookup other = some otherSync at hother
    by_cases heq : other = branch
    · subst heq
      rw [Finmap.lookup_insert] at hother
      cases hother
      constructor
      · intro hresolved
        exact .inr (.inr (.inr ⟨.reconciling other, if_pos hresolved, rfl⟩))
      · intro hlast
        have hheads : sync.lastReconciled = heads := by
          rw [hlast, hsync]
          rfl
        rcases hall.readings other heads linked hreading with hsame | hnotified
        · exact .inl (hsame.symm.trans hheads.symm)
        · exact .inr (.inl hnotified)
    · rw [Finmap.lookup_insert_of_ne _ heq] at hother
      refine (hall.branches other otherSync hother).mono ?_ ?_ ?_
      · exact .inl rfl
      · intro hold
        refine hold.imp_right fun hread => ?_
        show Function.update db.readings branch none other ≠ none
        rwa [Function.update_of_ne heq]
      · intro hold
        rcases hscheduled other otherSync hold heq with hnotified | hread | hmerging
        · exact .inl (.inl hnotified)
        · exact .inl (.inr hread)
        · exact .inr (.inl hmerging)
  · intro other otherHeads otherLinked hread
    change Function.update db.readings branch none other = _ at hread
    by_cases heq : other = branch
    · rw [heq, Function.update_self] at hread
      nomatch hread
    · rw [Function.update_of_ne heq] at hread
      exact hall.readings other otherHeads otherLinked hread

/-- **Step lemma.** -/
theorem AllConverging.step (hall : db.AllConverging) {action : SyncAction κ ι η χ π}
    (hkeeps : KeepsUp db action) (hstep : db.step links action = some next) :
    next.AllConverging := by
  cases action with
  | remoteChange branch changes =>
      cases hstep
      exact hall.setCanonical branch _
  | trackBranchDocument branch =>
      cases hstep
      refine hall.of_eq rfl rfl rfl (Finset.subset_insert _ _) fun other sync _ hunhandled hold => ?_
      exact .inr (hold.merging_or_call hunhandled)
  | readBranchDocument branch => exact hall.readBranchDocument hstep
  | trackBinaryDocument task branch found =>
      obtain ⟨-, -, rfl⟩ := trackBinaryDocument_eq_some hstep
      exact hall.of_eq rfl rfl rfl (Finset.Subset.refl _) fun _ _ _ _ => id
  | lookUp task last =>
      obtain ⟨found, -, rfl | ⟨handle, -, rfl⟩⟩ := lookUp_eq_some hstep
      · exact hall
      · exact hall.of_eq rfl rfl rfl (Finset.Subset.refl _) fun _ _ _ _ => id
  | becomeAvailable found handle =>
      obtain ⟨-, hnext⟩ := Option.ite_none_right_eq_some.mp hstep
      cases hnext
      exact hall.of_eq rfl rfl rfl (Finset.Subset.refl _) fun _ _ _ _ => id
  | updateBranchSyncState branch order => exact hall.updateBranchSyncState hstep
  | ingestBinaryDoc task order =>
      obtain ⟨found, handle, hcall, -, -, rfl⟩ := ingestBinaryDoc_eq_some hstep
      refine hall.of_eq rfl rfl rfl (Finset.Subset.refl _) fun other sync _ hunhandled hold => ?_
      rcases hold.merging_or_call hunhandled with hmerging | ⟨call, hnow, -⟩
      · exact .inr (.inl hmerging)
      · cases hcall.symm.trans hnow
  | ingestNext => exact hall.ingestNext hstep
  | tryReconcileBranch outcome =>
      obtain rfl : outcome = .ok := hkeeps
      rcases reconcile_eq_some hstep with ⟨branch, hcall, hstep⟩ |
        ⟨found, handle, branch, rest, hcall, hstep⟩
      · refine hall.reconcileThen (fun call other sync hnow hne hwill => ?_) hstep
        cases hcall.symm.trans hnow
        exact absurd hwill.symm hne
      · refine hall.reconcileThen (fun call other sync hnow hne hwill => ?_) hstep
        cases hcall.symm.trans hnow
        exact ⟨_, rfl, hwill.resolve_left fun heq => hne heq.symm⟩
  | commitFsChanges branch change created =>
      obtain ⟨committed, hcall, hcommit, rfl⟩ := commitFsChanges_eq_some hstep
      have heq := commitToShadow_eq_some hcommit
      refine hall.commitToShadow hcommit rfl ?_ ?_ ?_ ?_ ?_
      · obtain ⟨_, _, _, _, _, rfl⟩ := heq
        rfl
      · obtain ⟨_, _, _, _, _, rfl⟩ := heq
        rfl
      · obtain ⟨_, _, _, _, _, rfl⟩ := heq
        rfl
      · exact fun _ _ _ _ _ => .inr (.inr ⟨_, rfl, rfl⟩)
      · intro other sync hunhandled hold
        rcases hold.merging_or_call hunhandled with hmerging | ⟨call, hnow, -⟩
        · obtain ⟨_, _, _, _, _, rfl⟩ := heq
          exact .inr (.inl hmerging)
        · cases hcall.symm.trans hnow
  | reinsertHashes branch change =>
      have heq := commitToShadow_eq_some hstep
      obtain ⟨_, _, _, _, _, rfl⟩ := heq
      refine hall.commitToShadow hstep rfl rfl rfl rfl ?_ fun _ _ _ => id
      intro sync set hsync hdocs hresolved
      refine Scheduled.congr hdocs (hkeeps sync hsync ?_)
      rwa [BranchSyncState.Resolved, ← hdocs]
  | mergeShadow source target =>
      obtain ⟨sourceSync, targetSync, sourceDoc, targetDoc, -, htarget, -, -, rfl⟩ :=
        mergeShadow_eq_some hstep
      refine hall.setSync rfl rfl rfl rfl ?_ ?_
      · constructor
        · exact fun _ => .inr (.inr (.inl List.mem_cons_self))
        · exact (hall.branches target targetSync htarget).tracked
      · intro other sync _ hunhandled hold
        exact .inr ((hold.merging_or_call hunhandled).imp_left (List.mem_cons_of_mem _))
  | markMerge target change =>
      obtain ⟨hmerging, hcommit⟩ := Option.ite_none_right_eq_some.mp hstep
      have heq := commitToShadow_eq_some hcommit
      obtain ⟨_, _, _, _, _, rfl⟩ := heq
      refine hall.commitToShadow hcommit rfl rfl rfl rfl ?_ fun _ _ _ => id
      exact fun _ _ _ _ _ => .inr (.inl hmerging)
  | finishMerge target =>
      obtain ⟨hcall, hmerging, rfl⟩ := finishMerge_eq_some hstep
      refine hall.of_eq rfl rfl rfl (Finset.Subset.refl _)
        fun other sync hsync hunhandled hold => ?_
      rcases hold.merging_or_call hunhandled with hmem | ⟨call, hnow, -⟩
      · by_cases heq : other = target
        · subst heq
          exact .inr (.inr ⟨.reconciling other, if_pos (Finmap.mem_of_lookup_eq_some hsync), rfl⟩)
        · exact .inr (.inl ((List.mem_erase_of_ne heq).mpr hmem))
      · cases hcall.symm.trans hnow
  | abandonMerge target => exact absurd hkeeps id
  | clearBranchStates =>
      obtain ⟨hcall, rfl⟩ := clearBranchStates_eq_some hstep
      constructor
      · intro branch sync hsync
        exact absurd hsync (by simp)
      · exact hall.readings

/-- **In every run that keeps up, the shadow document of a branch at rest has exactly
the changes of its canonical document.** -/
theorem shadowDoc_eq_of_reachable (hreach : (syncSystem links).Reachable KeepsUp db)
    (branch : κ) {sync : BranchSyncState ι χ}
    (hsync : db.branchSyncStates.lookup branch = some sync) (hrest : db.AtRest branch sync) :
    sync.shadowDoc = some (db.canonical branch) := by
  have hall : db.AllConverging := by
    apply hreach.invariant
    · intro start ⟨hsyncs, _, _, hreadings, _⟩
      constructor
      · intro other found hfound
        rw [hsyncs] at hfound
        exact absurd hfound (by simp)
      · intro other heads linked hreading
        rw [hreadings other] at hreading
        nomatch hreading
    · exact fun _ _ _ hall hkeeps hstep => hall.step hkeeps hstep
  rcases (hall.branches branch sync hsync).converged hrest.resolved with hsame | hscheduled
  · exact hsame
  · rcases hscheduled.merging_or_call hrest.handled with hmerging | ⟨call, hnow, -⟩
    · exact absurd hmerging hrest.merged
    · cases hrest.noCall.symm.trans hnow

end BranchDb

/-! ## A commit that nobody reconciles -/

/-- A branch is tracked, its document is found and ingested, and the branch comes to
rest. -/
def comesToRest : List PlainAction :=
  [.trackBranchDocument false, .readBranchDocument false, .trackBinaryDocument false false 7,
    .updateBranchSyncState false [7], .becomeAvailable 7 (), .lookUp false false,
    .ingestBinaryDoc false [false], .ingestNext, .tryReconcileBranch .ok, .ingestNext]

/-- At rest, both documents have the one change. -/
theorem comesToRest_shadowDoc_eq : ∃ sync,
    (plainSystem.after twoBranches comesToRest).branchSyncStates.lookup false = some sync ∧
      (plainSystem.after twoBranches comesToRest).AtRest false sync ∧
      sync.shadowDoc = some ((plainSystem.after twoBranches comesToRest).canonical false) := by
  have hstart : plainSystem.Reachable KeepsUp twoBranches := .start twoBranches_fresh
  have hwithin : plainSystem.RunsWithin KeepsUp twoBranches comesToRest := by
    apply System.runsWithin_of_forall
    simp [comesToRest, KeepsUp]
  have hrest : ∃ sync,
      (plainSystem.after twoBranches comesToRest).branchSyncStates.lookup false = some sync ∧
        (plainSystem.after twoBranches comesToRest).AtRest false sync :=
    ⟨_, rfl, rfl, by rintro (h | h) <;> revert h <;> decide, by decide, by decide⟩
  obtain ⟨sync, hsync, hrest⟩ := hrest
  exact ⟨sync, hsync, hrest,
    BranchDb.shadowDoc_eq_of_reachable (hstart.after hwithin) false hsync hrest⟩

/-- `get_hash_index` reinserts a hash on a branch at rest: the branch is still at rest,
and the commit is in the shadow document only. -/
theorem reinserted_not_shadowDoc_eq : ∃ db : PlainDb,
    plainSystem.Reachable
        (fun _ action => ∀ outcome, action = .tryReconcileBranch outcome → outcome = .ok) db ∧
      ∃ sync, db.branchSyncStates.lookup false = some sync ∧ db.AtRest false sync ∧
        sync.shadowDoc ≠ some (db.canonical false) := by
  have hstart : plainSystem.Reachable (fun _ action => ∀ outcome,
      action = .tryReconcileBranch outcome → outcome = .ok) twoBranches :=
    .start twoBranches_fresh
  have hreach := hstart.after (System.runsWithin_of_forall (by simp [comesToRest]) _ :
    plainSystem.RunsWithin _ _ (comesToRest ++ [.reinsertHashes false 10]))
  refine ⟨_, hreach, _, rfl, ⟨rfl, ?_, by decide, by decide⟩, by decide⟩
  rintro (h | h) <;> revert h <;> decide

end Backstitch
