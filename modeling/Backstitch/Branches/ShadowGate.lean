/-
# What the shadow documents link

The gate in front of a reconcile looks at the documents that were linked when the
canonical document was last tracked, but the reconcile merges the canonical document
as it is by then.  While nothing comes through that was not tracked, the shadow
documents link only what `binary_states` knows and what this client created itself.
-/

import Backstitch.Branches.WakeUps

namespace Backstitch

universe u v w x y

variable {κ : Type u} {ι : Type v} {η : Type w} {χ : Type x} {π : Type y}
  [DecidableEq κ] [DecidableEq ι] [DecidableEq χ] [DecidableEq π]

/-- The branch that a call reconciles next. -/
def SyncCall.reconciles : SyncCall κ ι η → Option κ
  | .reconciling branch => some branch
  | .ingesting _ _ _ => none
  | .ingestReconciling _ _ branch _ => some branch

/-- What a merge links was tracked on the branch, was linked by a shadow document
before, or was created by this client. -/
def NothingUntracked (links : Finset χ → Finset ι) (db : BranchDb κ ι η χ π) :
    SyncAction κ ι η χ π → Prop
  | .tryReconcileBranch _ =>
      ∀ call branch sync, db.call = some call → call.reconciles = some branch →
        db.branchSyncStates.lookup branch = some sync → sync.Merges →
        ∀ id ∈ links (sync.merged (db.canonical branch)),
          id ∈ sync.canonicalBinaryDocs ∨ id ∈ db.created ∨
            ∃ doc, sync.shadowDoc = some doc ∧ id ∈ links doc
  | .mergeShadow source target =>
      ∀ sourceSync targetSync sourceDoc targetDoc,
        db.branchSyncStates.lookup source = some sourceSync →
        db.branchSyncStates.lookup target = some targetSync →
        sourceSync.shadowDoc = some sourceDoc → targetSync.shadowDoc = some targetDoc →
        ∀ id ∈ links (targetDoc ∪ sourceDoc),
          id ∈ links targetDoc ∨ id ∈ links sourceDoc ∨ id ∈ db.created
  | _ => True

namespace BranchDb

variable {links : Finset χ → Finset ι} {db next : BranchDb κ ι η χ π}

/-- A branch whose shadow document links only what this client created or looked for,
and whose documents that are not pending have been looked for. -/
structure Gated (links : Finset χ → Finset ι) (created : Finset ι)
    (binaryStates : HashMap ι (Option η)) (sync : BranchSyncState ι χ) : Prop where
  shadow : ∀ doc, sync.shadowDoc = some doc → ∀ id ∈ links doc,
    id ∈ created ∨ id ∈ binaryStates
  lookedFor : ∀ id status, sync.canonicalBinaryDocs.lookup id = some status →
    status ≠ .pending → id ∈ binaryStates

namespace Gated

variable {created : Finset ι} {binaryStates : HashMap ι (Option η)} {sync : BranchSyncState ι χ}

omit [DecidableEq χ] in
/-- The tables grow. -/
theorem mono (hgated : Gated links created binaryStates sync) {moreCreated : Finset ι}
    {moreStates : HashMap ι (Option η)} (hcreated : created ⊆ moreCreated)
    (hstates : ∀ id ∈ binaryStates, id ∈ moreStates) :
    Gated links moreCreated moreStates sync := by
  constructor
  · intro doc hdoc id hid
    exact (hgated.shadow doc hdoc id hid).imp (fun hmem => hcreated hmem) (hstates id)
  · exact fun id status hstatus hlooked =>
      hstates id (hgated.lookedFor id status hstatus hlooked)

omit [DecidableEq χ] in
/-- What a resolved branch tracks was looked for. -/
theorem mem_binaryStates (hgated : Gated links created binaryStates sync)
    (hresolved : sync.Resolved) {id : ι} (hid : id ∈ sync.canonicalBinaryDocs) :
    id ∈ binaryStates := by
  obtain ⟨status, hstatus⟩ := Finmap.mem_iff.mp hid
  apply hgated.lookedFor id status hstatus
  rintro rfl
  exact hresolved id hid hstatus

/-- A reconcile that brings in nothing untracked. -/
theorem tryReconcileBranch (hgated : Gated links created binaryStates sync)
    {canonical : Finset χ} (outcome : MergeOutcome)
    (htracked : sync.Merges → ∀ id ∈ links (sync.merged canonical),
      id ∈ sync.canonicalBinaryDocs ∨ id ∈ created ∨
        ∃ doc, sync.shadowDoc = some doc ∧ id ∈ links doc) :
    Gated links created binaryStates (sync.tryReconcileBranch canonical outcome).1 := by
  by_cases hmerges : sync.Merges
  · have hknown : ∀ id ∈ links (sync.merged canonical), id ∈ created ∨ id ∈ binaryStates := by
      intro id hid
      rcases htracked hmerges id hid with htracked | hcreated | ⟨doc, hdoc, hlinked⟩
      · exact .inr (hgated.mem_binaryStates hmerges.1 htracked)
      · exact .inl hcreated
      · exact hgated.shadow doc hdoc id hlinked
    constructor
    · unfold BranchSyncState.tryReconcileBranch
      rw [if_pos hmerges]
      cases outcome with
      | ok => exact fun doc hdoc => Option.some.inj hdoc ▸ hknown
      | shadowFails =>
          intro doc hdoc
          cases hshadow : sync.shadowDoc with
          | some old =>
              simp only [hshadow, Option.getD_some, Option.some.injEq] at hdoc
              exact hdoc ▸ hgated.shadow old hshadow
          | none =>
              simp only [hshadow, Option.getD_none, Option.some.injEq] at hdoc
              subst hdoc
              simpa [BranchSyncState.merged, hshadow] using hknown
      | canonicalFails => exact fun doc hdoc => Option.some.inj hdoc ▸ hknown
    · rw [BranchSyncState.canonicalBinaryDocs_tryReconcileBranch]
      exact hgated.lookedFor
  · rw [BranchSyncState.tryReconcileBranch_of_not_merges hmerges]
    exact hgated

end Gated

/-- Every branch is gated. -/
def AllGated (links : Finset χ → Finset ι) (db : BranchDb κ ι η χ π) : Prop :=
  ∀ branch sync, db.branchSyncStates.lookup branch = some sync →
    Gated links db.created db.binaryStates sync

omit [DecidableEq π] in
omit [DecidableEq χ] in
/-- A step that sets one branch, while the tables keep what they have. -/
theorem AllGated.setSync (hgated : db.AllGated links) {branch : κ} {set : BranchSyncState ι χ}
    (hnext : next.branchSyncStates = db.branchSyncStates.insert branch set)
    (hset : Gated links next.created next.binaryStates set)
    (hcreated : db.created ⊆ next.created)
    (hstates : ∀ id ∈ db.binaryStates, id ∈ next.binaryStates) : next.AllGated links := by
  intro other sync hsync
  rw [hnext] at hsync
  by_cases heq : other = branch
  · subst heq
    rw [Finmap.lookup_insert] at hsync
    cases hsync
    exact hset
  · rw [Finmap.lookup_insert_of_ne _ heq] at hsync
    exact (hgated other sync hsync).mono hcreated hstates

omit [DecidableEq π] in
/-- The reconcile of a call. -/
theorem AllGated.reconcileThen (hgated : db.AllGated links) {branch : κ}
    {outcome : MergeOutcome} {rest : Option (SyncCall κ ι η)}
    (htracked : ∀ sync, db.branchSyncStates.lookup branch = some sync → sync.Merges →
      ∀ id ∈ links (sync.merged (db.canonical branch)),
        id ∈ sync.canonicalBinaryDocs ∨ id ∈ db.created ∨
          ∃ doc, sync.shadowDoc = some doc ∧ id ∈ links doc)
    (hstep : db.reconcileThen branch outcome rest = some next) : next.AllGated links := by
  obtain ⟨sync, result, hsync, rfl, rfl⟩ := reconcileThen_eq_some hstep
  have hset := (hgated branch sync hsync).tryReconcileBranch outcome (htracked sync hsync)
  exact hgated.setSync rfl hset (Finset.Subset.refl _) fun _ => id

omit [DecidableEq π] in
/-- A commit links what it created. -/
theorem AllGated.commitToShadow (hgated : db.AllGated links) {branch : κ} {change : χ}
    {created : Finset ι} {committed : BranchDb κ ι η χ π}
    (hstep : db.commitToShadow links branch change created = some committed)
    (hsyncs : next.branchSyncStates = committed.branchSyncStates)
    (hstates : next.binaryStates = db.binaryStates)
    (hcreated : next.created = db.created ∪ created) : next.AllGated links := by
  obtain ⟨sync, doc, hsync, hdoc, hlinks, rfl⟩ := commitToShadow_eq_some hstep
  have hold := hgated branch sync hsync
  refine hgated.setSync hsyncs ?_ (by simp [hcreated]) (by simp [hstates])
  constructor
  · intro changed hchanged id hid
    cases hchanged
    rw [hcreated, hstates]
    rcases Finset.mem_union.mp (hlinks hid) with hlinked | hnew
    · exact (hold.shadow doc hdoc id hlinked).imp_left (Finset.mem_union_left _)
    · exact .inl (Finset.mem_union_right _ hnew)
  · rw [hstates]
    exact hold.lookedFor

omit [DecidableEq π] in
omit [DecidableEq χ] in
/-- The next branch of an ingest gets a status for a document that is entered. -/
theorem AllGated.ingestNext (hgated : db.AllGated links) (hentered : db.Entered)
    (hstep : db.ingestNext = some next) : next.AllGated links := by
  rcases ingestNext_eq_some hstep with ⟨found, handle, -, rfl⟩ |
    ⟨found, handle, branch, rest, sync, hcall, hsync, ⟨hlinked, rfl⟩ | ⟨-, rfl⟩⟩
  · exact hgated
  · have hentry : found ∈ db.binaryStates :=
      Finmap.mem_of_lookup_eq_some (hentered _ found handle (branch :: rest) hcall rfl)
    refine hgated.setSync rfl ?_ (Finset.Subset.refl _) fun _ => id
    constructor
    · exact (hgated branch sync hsync).shadow
    · intro other status hstatus hlooked
      by_cases heq : other = found
      · exact heq ▸ hentry
      · change (sync.canonicalBinaryDocs.insert found _).lookup other = some status at hstatus
        rw [Finmap.lookup_insert_of_ne _ heq] at hstatus
        exact (hgated branch sync hsync).lookedFor other status hstatus hlooked
  · exact hgated

/-- **Step lemma.** -/
theorem AllGated.step (hgated : db.AllGated links) (hentered : db.Entered)
    {action : SyncAction κ ι η χ π} (htracked : NothingUntracked links db action)
    (hstep : db.step links action = some next) : next.AllGated links := by
  cases action with
  | remoteChange branch changes =>
      cases hstep
      exact hgated
  | trackBranchDocument branch =>
      cases hstep
      exact hgated
  | readBranchDocument branch =>
      obtain ⟨-, -, rfl⟩ := readBranchDocument_eq_some hstep
      exact hgated
  | trackBinaryDocument task branch id =>
      obtain ⟨-, -, rfl⟩ := trackBinaryDocument_eq_some hstep
      exact hgated
  | lookUp task last =>
      obtain ⟨id, -, rfl | ⟨handle, -, rfl⟩⟩ := lookUp_eq_some hstep <;> exact hgated
  | becomeAvailable id handle =>
      obtain ⟨-, hnext⟩ := Option.ite_none_right_eq_some.mp hstep
      cases hnext
      exact hgated
  | updateBranchSyncState branch order =>
      obtain ⟨heads, linked, sync, -, -, -, -, hsync, rfl⟩ := updateBranchSyncState_eq_some hstep
      refine hgated.setSync rfl ?_ (Finset.Subset.refl _) fun _ => id
      constructor
      · intro doc hdoc
        cases hold : db.branchSyncStates.lookup branch with
        | none =>
            rw [hsync, hold] at hdoc
            nomatch hdoc
        | some old =>
            rw [hsync, hold] at hdoc
            exact (hgated branch old hold).shadow doc hdoc
      · intro id status hstatus hlooked
        rw [hsync] at hstatus
        obtain ⟨-, heq⟩ := BranchSyncState.lookup_track hstatus
        cases hentry : db.binaryStates.lookup id with
        | none =>
            rw [hentry] at heq
            exact absurd heq hlooked
        | some entry => exact Finmap.mem_of_lookup_eq_some hentry
  | ingestBinaryDoc task order =>
      obtain ⟨id, handle, -, -, -, rfl⟩ := ingestBinaryDoc_eq_some hstep
      intro branch sync hsync
      apply (hgated branch sync hsync).mono (Finset.Subset.refl _)
      exact fun other hother => Finmap.mem_insert.mpr (.inr hother)
  | ingestNext => exact hgated.ingestNext hentered hstep
  | tryReconcileBranch outcome =>
      rcases reconcile_eq_some hstep with ⟨branch, hcall, hstep⟩ |
        ⟨id, handle, branch, rest, hcall, hstep⟩
      · exact hgated.reconcileThen (fun sync => htracked _ branch sync hcall rfl) hstep
      · exact hgated.reconcileThen (fun sync => htracked _ branch sync hcall rfl) hstep
  | commitFsChanges branch change created =>
      obtain ⟨committed, -, hcommit, rfl⟩ := commitFsChanges_eq_some hstep
      refine hgated.commitToShadow hcommit ?_ ?_ rfl
      · rfl
      · obtain ⟨_, _, _, _, _, rfl⟩ := commitToShadow_eq_some hcommit
        rfl
  | reinsertHashes branch change =>
      apply hgated.commitToShadow hstep rfl
      · obtain ⟨_, _, _, _, _, rfl⟩ := commitToShadow_eq_some hstep
        rfl
      · obtain ⟨_, _, _, _, _, rfl⟩ := commitToShadow_eq_some hstep
        exact (Finset.union_empty _).symm
  | mergeShadow source target =>
      obtain ⟨sourceSync, targetSync, sourceDoc, targetDoc, hsource, htarget, hsourceDoc,
        htargetDoc, rfl⟩ := mergeShadow_eq_some hstep
      refine hgated.setSync rfl ?_ (Finset.Subset.refl _) fun _ => id
      constructor
      · intro doc hdoc id hid
        cases hdoc
        rcases htracked _ _ _ _ hsource htarget hsourceDoc htargetDoc id hid with
          hlinked | hlinked | hcreated
        · exact (hgated target targetSync htarget).shadow targetDoc htargetDoc id hlinked
        · exact (hgated source sourceSync hsource).shadow sourceDoc hsourceDoc id hlinked
        · exact .inl hcreated
      · exact (hgated target targetSync htarget).lookedFor
  | markMerge target change =>
      obtain ⟨-, hcommit⟩ := Option.ite_none_right_eq_some.mp hstep
      apply hgated.commitToShadow hcommit rfl
      · obtain ⟨_, _, _, _, _, rfl⟩ := commitToShadow_eq_some hcommit
        rfl
      · obtain ⟨_, _, _, _, _, rfl⟩ := commitToShadow_eq_some hcommit
        exact (Finset.union_empty _).symm
  | finishMerge target =>
      obtain ⟨-, -, rfl⟩ := finishMerge_eq_some hstep
      exact hgated
  | abandonMerge target =>
      obtain ⟨-, hnext⟩ := Option.ite_none_right_eq_some.mp hstep
      cases hnext
      exact hgated
  | clearBranchStates =>
      obtain ⟨-, rfl⟩ := clearBranchStates_eq_some hstep
      intro branch sync hsync
      exact absurd hsync (by simp)

/-- **In every run in which no merge brings in a link that was not tracked, whatever a
shadow document links was looked for or created by this client.** -/
theorem linked_mem_of_reachable
    (hreach : (syncSystem links).Reachable (NothingUntracked links) db) (branch : κ)
    {sync : BranchSyncState ι χ} (hsync : db.branchSyncStates.lookup branch = some sync)
    {doc : Finset χ} (hdoc : sync.shadowDoc = some doc) {id : ι} (hid : id ∈ links doc)
    (hcreated : id ∉ db.created) : id ∈ db.binaryStates := by
  have hboth : db.Entered ∧ db.AllGated links := by
    apply hreach.invariant
    · intro start hfresh
      have hfirst : (syncSystem links).Reachable (NothingUntracked links) start := .start hfresh
      refine ⟨entered_of_reachable hfirst, fun other found hfound => ?_⟩
      rw [hfresh.1] at hfound
      exact absurd hfound (by simp)
    · exact fun _ _ _ hboth htracked hstep =>
        ⟨hboth.1.step hstep, hboth.2.step hboth.1 htracked hstep⟩
  exact ((hboth.2 branch sync hsync).shadow doc hdoc id hid).resolve_left hcreated

end BranchDb

/-! ## A link that arrives between the gate and the merge -/

/-- A branch is tracked, and its document is found and ingested up to the reconcile. -/
def oneIngest : List PlainAction :=
  [.trackBranchDocument false, .readBranchDocument false, .trackBinaryDocument false false 7,
    .updateBranchSyncState false [7], .becomeAvailable 7 (), .lookUp false false,
    .ingestBinaryDoc false [false], .ingestNext]

/-- Nothing arrives before the reconcile. -/
theorem oneIngest_linked_mem : ∃ sync, (plainSystem.after twoBranches
      (oneIngest ++ [.tryReconcileBranch .ok])).branchSyncStates.lookup false = some sync ∧
      sync.shadowDoc = some {7} ∧
      7 ∈ (plainSystem.after twoBranches (oneIngest ++ [.tryReconcileBranch .ok])).binaryStates := by
  have hstart : plainSystem.Reachable (NothingUntracked plainLinks) twoBranches :=
    .start twoBranches_fresh
  have hquiet : ∀ action ∈ oneIngest, ∀ db : PlainDb, NothingUntracked plainLinks db action := by
    simp [oneIngest, NothingUntracked]
  have hwithin : plainSystem.RunsWithin (NothingUntracked plainLinks) twoBranches
      (oneIngest ++ [.tryReconcileBranch .ok]) := by
    apply (System.runsWithin_of_forall hquiet twoBranches).append
    refine ⟨?_, fun _ _ => trivial⟩
    intro call branch sync hcall hreconciles hsync _ linked hlinked
    cases hcall
    cases hreconciles
    cases hsync
    change linked ∈ plainLinks ({7} ∪ {7}) at hlinked
    have hseven : ∀ found ∈ plainLinks ({7} ∪ {7}), found = 7 := by decide
    obtain rfl := hseven linked hlinked
    exact .inl (by decide)
  have hshadow : ∃ sync, (plainSystem.after twoBranches
      (oneIngest ++ [.tryReconcileBranch .ok])).branchSyncStates.lookup false = some sync ∧
      sync.shadowDoc = some {7} := ⟨_, rfl, by decide⟩
  obtain ⟨sync, hsync, hdoc⟩ := hshadow
  exact ⟨sync, hsync, hdoc, BranchDb.linked_mem_of_reachable (hstart.after hwithin) false hsync
    hdoc (by decide : 7 ∈ plainLinks {7}) (by decide)⟩

/-- A change that links document 8 arrives before the reconcile, which merges it. -/
theorem lateLink_not_mem : ∃ db : PlainDb, plainSystem.Reachable (fun _ _ => True) db ∧
    ∃ sync doc, db.branchSyncStates.lookup false = some sync ∧ sync.shadowDoc = some doc ∧
      8 ∈ plainLinks doc ∧ 8 ∉ db.created ∧ 8 ∉ db.binaryStates := by
  have hstart : plainSystem.Reachable (fun _ _ => True) twoBranches := .start twoBranches_fresh
  have hreach := hstart.after (System.runsWithin_true _
    (oneIngest ++ [.remoteChange false {8}, .tryReconcileBranch .ok]))
  exact ⟨_, hreach, _, _, rfl, rfl, by decide, by decide, by decide⟩

end Backstitch
