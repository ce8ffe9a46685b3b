/-
# Wake-ups of waiting branches

A branch waits for its linked documents through the statuses in its
`canonical_binary_docs`, and nobody polls for a document that `binary_states` knows.
`ingest_binary_doc` visits one branch after the other and leaves with the first
reconcile that fails, so the branches that come later keep the status they had.
-/

import Backstitch.Branches.SyncStates

namespace Backstitch

universe u v w x y

variable {κ : Type u} {ι : Type v} {η : Type w} {χ : Type x} {π : Type y}
  [DecidableEq κ] [DecidableEq ι] [DecidableEq χ] [DecidableEq π]

namespace BranchDb

/-- The status of a document on a branch that links it. -/
def status (db : BranchDb κ ι η χ π) (branch : κ) (id : ι) : Option BinaryDocStatus :=
  (db.branchSyncStates.lookup branch).bind fun sync => sync.canonicalBinaryDocs.lookup id

variable {links : Finset χ → Finset ι} {db next : BranchDb κ ι η χ π}

omit [DecidableEq χ] [DecidableEq π] in
theorem status_setSync (branch : κ) (sync : BranchSyncState ι χ) (other : κ) (id : ι) :
    (db.setSync branch sync).status other id =
      if other = branch then sync.canonicalBinaryDocs.lookup id else db.status other id := by
  unfold status setSync
  by_cases heq : other = branch
  · rw [if_pos heq, heq, Finmap.lookup_insert]
    rfl
  · rw [if_neg heq, Finmap.lookup_insert_of_ne _ heq]

omit [DecidableEq χ] [DecidableEq π] in
/-- Where a branch keeps its documents, every status stays. -/
theorem status_setSync_of_eq {branch : κ} {old sync : BranchSyncState ι χ}
    (hold : db.branchSyncStates.lookup branch = some old)
    (hdocs : sync.canonicalBinaryDocs = old.canonicalBinaryDocs) (other : κ) (id : ι) :
    (db.setSync branch sync).status other id = db.status other id := by
  rw [status_setSync]
  split
  · rename_i heq
    rw [status, heq, hold, hdocs]
    rfl
  · rfl

end BranchDb

/-! ## No branch sleeps on -/

/-- If the reconcile of an ingest fails, no branch that comes later still has another
status for the document. -/
def NoneLeftAsleep (db : BranchDb κ ι η χ π) : SyncAction κ ι η χ π → Prop
  | .tryReconcileBranch outcome =>
      ∀ id handle branch rest sync, db.call = some (.ingestReconciling id handle branch rest) →
        db.branchSyncStates.lookup branch = some sync → sync.Merges → outcome ≠ .ok →
        ∀ later ∈ rest, ∀ found, db.status later id = some found →
          found = .ofEntry (some handle)
  | _ => True

namespace BranchDb

variable {links : Finset χ → Finset ι} {db next : BranchDb κ ι η χ π}

/-- Every status says what `binary_states` says, except on branches that an ingest has
yet to visit. -/
def Awake (db : BranchDb κ ι η χ π) : Prop :=
  ∀ branch id found, db.status branch id = some found →
    found = .ofEntry (db.binaryStates.lookup id) ∨
      ∃ call handle rest, db.call = some call ∧ call.visiting = some (id, handle, rest) ∧
        branch ∈ rest

omit [DecidableEq χ] [DecidableEq π] in
/-- Steps that leave statuses, entries and the call alone. -/
theorem Awake.of_eq (hawake : db.Awake)
    (hstatus : ∀ branch id, next.status branch id = db.status branch id)
    (hentries : next.binaryStates = db.binaryStates) (hcall : next.call = db.call) :
    next.Awake := by
  intro branch id found hfound
  rw [hentries, hcall]
  exact hawake branch id found (by rw [← hstatus, hfound])

omit [DecidableEq χ] [DecidableEq π] in
/-- With no ingest in progress, every status says what `binary_states` says. -/
theorem Awake.status_eq (hawake : db.Awake)
    (hcall : ∀ call, db.call = some call → call.visiting = none) {branch : κ} {id : ι}
    {found : BinaryDocStatus} (hfound : db.status branch id = some found) :
    found = .ofEntry (db.binaryStates.lookup id) := by
  rcases hawake branch id found hfound with hsame | ⟨call, _, _, hnow, hvisiting, -⟩
  · exact hsame
  · rw [hcall call hnow] at hvisiting
    nomatch hvisiting

omit [DecidableEq χ] [DecidableEq π] in
/-- During an ingest, only statuses of its document can be wrong, on branches that it
has yet to visit. -/
theorem Awake.eq_or_mem (hawake : db.Awake) {call : SyncCall κ ι η} {id : ι}
    {handle : Option η} {rest : List κ} (hcall : db.call = some call)
    (hvisiting : call.visiting = some (id, handle, rest)) {branch : κ} {other : ι}
    {found : BinaryDocStatus} (hfound : db.status branch other = some found) :
    found = .ofEntry (db.binaryStates.lookup other) ∨ other = id ∧ branch ∈ rest := by
  rcases hawake branch other found hfound with hsame | ⟨_, _, _, hnow, hcalled, hmem⟩
  · exact .inl hsame
  · cases hcall.symm.trans hnow
    cases hvisiting.symm.trans hcalled
    exact .inr ⟨rfl, hmem⟩

omit [DecidableEq χ] [DecidableEq π] in
/-- The next branch of an ingest. -/
theorem Awake.ingestNext (hawake : db.Awake) (hentered : db.Entered)
    (hstep : db.ingestNext = some next) : next.Awake := by
  rcases ingestNext_eq_some hstep with ⟨id, handle, hcall, rfl⟩ |
    ⟨id, handle, visited, rest, sync, hcall, hsync, ⟨hlinked, rfl⟩ | ⟨hlinked, rfl⟩⟩
  · intro branch other found hfound
    rcases hawake.eq_or_mem hcall rfl hfound with hsame | ⟨-, hmem⟩
    · exact .inl hsame
    · nomatch hmem
  · have hentry : db.binaryStates.lookup id = some handle :=
      hentered _ id handle (visited :: rest) hcall rfl
    intro branch other found hfound
    change (db.setSync visited _).status branch other = some found at hfound
    rw [status_setSync] at hfound
    by_cases hboth : branch = visited ∧ other = id
    · obtain ⟨rfl, rfl⟩ := hboth
      rw [if_pos rfl, Finmap.lookup_insert] at hfound
      cases hfound
      left
      show _ = BinaryDocStatus.ofEntry (db.binaryStates.lookup other)
      rw [hentry]
    · have hold : db.status branch other = some found := by
        by_cases hbranch : branch = visited
        · have hother : other ≠ id := fun hother => hboth ⟨hbranch, hother⟩
          rw [if_pos hbranch, Finmap.lookup_insert_of_ne _ hother] at hfound
          rw [status, hbranch, hsync]
          exact hfound
        · rwa [if_neg hbranch] at hfound
      rcases hawake.eq_or_mem hcall rfl hold with hsame | ⟨rfl, hmem⟩
      · exact .inl hsame
      · refine .inr ⟨_, handle, rest, rfl, rfl, ?_⟩
        exact (List.mem_cons.mp hmem).resolve_left fun heq => hboth ⟨heq, rfl⟩
  · intro branch other found hfound
    rcases hawake.eq_or_mem hcall rfl hfound with hsame | ⟨rfl, hmem⟩
    · exact .inl hsame
    · refine .inr ⟨_, handle, rest, rfl, rfl, (List.mem_cons.mp hmem).resolve_left ?_⟩
      rintro rfl
      apply hlinked
      apply Finmap.mem_of_lookup_eq_some
      change (db.branchSyncStates.lookup branch).bind _ = some found at hfound
      rw [hsync] at hfound
      exact hfound

omit [DecidableEq π] in
/-- What a reconcile leaves to the statuses and entries, and how the call goes on. -/
theorem status_reconcileThen {branch : κ} {outcome : MergeOutcome}
    {rest : Option (SyncCall κ ι η)} (hstep : db.reconcileThen branch outcome rest = some next) :
    ∃ sync, db.branchSyncStates.lookup branch = some sync ∧
      (∀ other id, next.status other id = db.status other id) ∧
      next.binaryStates = db.binaryStates ∧
      next.call = if sync.Merges → outcome = .ok then rest else none := by
  obtain ⟨sync, result, hsync, rfl, rfl⟩ := reconcileThen_eq_some hstep
  refine ⟨sync, hsync, fun other id => ?_, rfl, ?_⟩
  · exact status_setSync_of_eq hsync BranchSyncState.canonicalBinaryDocs_tryReconcileBranch
      other id
  · show (if (sync.tryReconcileBranch (db.canonical branch) outcome).2.2 then rest else none) = _
    simp only [BranchSyncState.tryReconcileBranch_ok_iff]

omit [DecidableEq π] in
/-- A reconcile that leaves nobody asleep. -/
theorem Awake.reconcile (hawake : db.Awake) (hentered : db.Entered) {outcome : MergeOutcome}
    (hasleep : NoneLeftAsleep db (.tryReconcileBranch outcome))
    (hstep : db.reconcile outcome = some next) : next.Awake := by
  rcases reconcile_eq_some hstep with ⟨branch, hcall, hstep⟩ |
    ⟨id, handle, branch, rest, hcall, hstep⟩
  · obtain ⟨sync, hsync, hstatus, hentries, hnext⟩ := status_reconcileThen hstep
    intro other id found hfound
    rw [hstatus] at hfound
    rw [hentries]
    left
    apply hawake.status_eq _ hfound
    intro call hnow
    cases hcall.symm.trans hnow
    rfl
  · have hentry : db.binaryStates.lookup id = some handle :=
      hentered _ id handle rest hcall rfl
    obtain ⟨sync, hsync, hstatus, hentries, hnext⟩ := status_reconcileThen hstep
    intro other doc found hfound
    rw [hstatus] at hfound
    rw [hentries]
    rcases hawake.eq_or_mem hcall rfl hfound with hsame | ⟨rfl, hmem⟩
    · exact .inl hsame
    · by_cases hok : sync.Merges → outcome = .ok
      · rw [if_pos hok] at hnext
        exact .inr ⟨_, handle, rest, hnext, rfl, hmem⟩
      · obtain ⟨hmerges, houtcome⟩ := Classical.not_imp.mp hok
        left
        rw [hentry]
        exact hasleep doc handle branch rest sync hcall hsync hmerges houtcome other hmem found
          hfound

omit [DecidableEq π] in
/-- A commit changes no status. -/
theorem Awake.commitToShadow (hawake : db.Awake) {branch : κ} {change : χ}
    {created : Finset ι} (hstep : db.commitToShadow links branch change created = some next) :
    next.Awake := by
  obtain ⟨sync, doc, hsync, -, -, rfl⟩ := commitToShadow_eq_some hstep
  exact hawake.of_eq (status_setSync_of_eq hsync rfl) rfl rfl

omit [DecidableEq χ] [DecidableEq π] in
/-- Where no call is, a call may start. -/
theorem Awake.startCall (hawake : db.Awake) (hcall : db.call = none)
    (hstatus : ∀ branch id, next.status branch id = db.status branch id)
    (hentries : next.binaryStates = db.binaryStates) : next.Awake := by
  intro branch id found hfound
  rw [hstatus] at hfound
  rw [hentries]
  exact .inl (hawake.status_eq (by simp [hcall]) hfound)

/-- **Step lemma.** -/
theorem Awake.step (hawake : db.Awake) (hentered : db.Entered)
    {action : SyncAction κ ι η χ π} (hasleep : NoneLeftAsleep db action)
    (hstep : db.step links action = some next) : next.Awake := by
  cases action with
  | remoteChange branch changes =>
      cases hstep
      exact hawake.of_eq (fun _ _ => rfl) rfl rfl
  | trackBranchDocument branch =>
      cases hstep
      exact hawake.of_eq (fun _ _ => rfl) rfl rfl
  | readBranchDocument branch =>
      obtain ⟨-, -, rfl⟩ := readBranchDocument_eq_some hstep
      exact hawake.of_eq (fun _ _ => rfl) rfl rfl
  | trackBinaryDocument task branch id =>
      obtain ⟨-, -, rfl⟩ := trackBinaryDocument_eq_some hstep
      exact hawake.of_eq (fun _ _ => rfl) rfl rfl
  | lookUp task last =>
      obtain ⟨id, -, rfl | ⟨handle, -, rfl⟩⟩ := lookUp_eq_some hstep
      · exact hawake
      · exact hawake.of_eq (fun _ _ => rfl) rfl rfl
  | becomeAvailable id handle =>
      obtain ⟨-, hnext⟩ := Option.ite_none_right_eq_some.mp hstep
      cases hnext
      exact hawake.of_eq (fun _ _ => rfl) rfl rfl
  | updateBranchSyncState branch order =>
      obtain ⟨heads, linked, sync, hcall, -, -, -, hsync, rfl⟩ :=
        updateBranchSyncState_eq_some hstep
      intro other id found hfound
      change (db.setSync branch sync).status other id = some found at hfound
      rw [status_setSync] at hfound
      left
      split at hfound
      · rw [hsync] at hfound
        exact (BranchSyncState.lookup_track hfound).2
      · exact hawake.status_eq (by simp [hcall]) hfound
  | ingestBinaryDoc task order =>
      obtain ⟨id, handle, hcall, -, horder, rfl⟩ := ingestBinaryDoc_eq_some hstep
      intro branch other found hfound
      by_cases heq : other = id
      · subst heq
        refine .inr ⟨_, handle, order, rfl, rfl, ?_⟩
        rw [← List.mem_toFinset, horder, Finmap.mem_keys]
        obtain ⟨sync, hsync, -⟩ := Option.bind_eq_some_iff.mp hfound
        exact Finmap.mem_of_lookup_eq_some hsync
      · left
        show found = BinaryDocStatus.ofEntry ((db.binaryStates.insert id handle).lookup other)
        rw [Finmap.lookup_insert_of_ne _ heq]
        exact hawake.status_eq (by simp [hcall]) hfound
  | ingestNext => exact hawake.ingestNext hentered hstep
  | tryReconcileBranch outcome => exact hawake.reconcile hentered hasleep hstep
  | commitFsChanges branch change created =>
      obtain ⟨committed, hcall, hcommit, rfl⟩ := commitFsChanges_eq_some hstep
      obtain ⟨sync, doc, hsync, -, -, rfl⟩ := commitToShadow_eq_some hcommit
      exact hawake.startCall hcall (status_setSync_of_eq hsync rfl) rfl
  | reinsertHashes branch change => exact hawake.commitToShadow hstep
  | mergeShadow source target =>
      obtain ⟨sourceSync, targetSync, sourceDoc, targetDoc, -, htarget, -, -, rfl⟩ :=
        mergeShadow_eq_some hstep
      exact hawake.of_eq (status_setSync_of_eq htarget rfl) rfl rfl
  | markMerge target change =>
      obtain ⟨-, hcommit⟩ := Option.ite_none_right_eq_some.mp hstep
      exact hawake.commitToShadow hcommit
  | finishMerge target =>
      obtain ⟨hcall, -, rfl⟩ := finishMerge_eq_some hstep
      exact hawake.startCall hcall (fun _ _ => rfl) rfl
  | abandonMerge target =>
      obtain ⟨-, hnext⟩ := Option.ite_none_right_eq_some.mp hstep
      cases hnext
      exact hawake.of_eq (fun _ _ => rfl) rfl rfl
  | clearBranchStates =>
      obtain ⟨hcall, rfl⟩ := clearBranchStates_eq_some hstep
      intro branch id found hfound
      change ((∅ : HashMap κ (BranchSyncState ι χ)).lookup branch).bind _ = _ at hfound
      rw [Finmap.lookup_empty] at hfound
      nomatch hfound

/-- **In every run in which no failing reconcile leaves a branch asleep, between two
calls every status says what `binary_states` says.** -/
theorem status_eq_of_reachable (hreach : (syncSystem links).Reachable NoneLeftAsleep db)
    (hcall : db.call = none) (branch : κ) {sync : BranchSyncState ι χ}
    (hsync : db.branchSyncStates.lookup branch = some sync) {id : ι}
    (hlinked : id ∈ sync.canonicalBinaryDocs) :
    (sync.canonicalBinaryDocs.lookup id = some .pending ↔ db.binaryStates.lookup id = none) ∧
      (sync.canonicalBinaryDocs.lookup id = some .ok ↔
        ∃ handle, db.binaryStates.lookup id = some (some handle)) ∧
      (sync.canonicalBinaryDocs.lookup id = some .failed ↔
        db.binaryStates.lookup id = some none) := by
  have hboth : db.Entered ∧ db.Awake := by
    apply hreach.invariant
    · intro start hfresh
      have hfirst : (syncSystem links).Reachable NoneLeftAsleep start := .start hfresh
      refine ⟨entered_of_reachable hfirst, fun other doc found hfound => ?_⟩
      rw [status, hfresh.1, Finmap.lookup_empty] at hfound
      nomatch hfound
    · exact fun _ _ _ hboth hasleep hstep =>
        ⟨hboth.1.step hstep, hboth.2.step hboth.1 hasleep hstep⟩
  obtain ⟨found, hfound⟩ := Finmap.mem_iff.mp hlinked
  have hstatus : db.status branch id = some found := by
    rw [status, hsync]
    exact hfound
  have heq := hboth.2.status_eq (by simp [hcall]) hstatus
  rw [hfound, heq]
  cases hentry : db.binaryStates.lookup id with
  | none => simp [BinaryDocStatus.ofEntry]
  | some entry => cases entry <;> simp [BinaryDocStatus.ofEntry]

end BranchDb

/-! ## Two branches that wait for one document -/

/-- Changes below 10 link the document that they are named after. -/
def plainLinks (doc : Finset Nat) : Finset Nat :=
  doc.filter (· < 10)

abbrev PlainDb := BranchDb Bool Nat Unit Nat Bool

abbrev PlainAction := SyncAction Bool Nat Unit Nat Bool

def plainSystem : System PlainDb PlainAction := syncSystem plainLinks

/-- Both branches have a change that links document 7. -/
def twoBranches : PlainDb where
  canonical _ := {7}
  branchSyncStates := ∅
  binaryStates := ∅
  call := none
  readings _ := none
  notified := ∅
  merging := []
  polls _ := none
  available _ := none
  created := ∅

theorem twoBranches_fresh : plainSystem.start twoBranches :=
  ⟨rfl, rfl, rfl, fun _ => rfl, rfl, fun _ => rfl⟩

/-- Both branches are tracked, and the document is found and ingested; the reconciles
of the two branches turn out as given. -/
def ingestSeven (first second : MergeOutcome) : List PlainAction :=
  [.trackBranchDocument false, .readBranchDocument false, .trackBinaryDocument false false 7,
    .updateBranchSyncState false [7], .trackBranchDocument true, .readBranchDocument true,
    .updateBranchSyncState true [7], .becomeAvailable 7 (), .lookUp false false,
    .ingestBinaryDoc false [false, true], .ingestNext, .tryReconcileBranch first, .ingestNext,
    .tryReconcileBranch second, .ingestNext]

/-- With reconciles that succeed, the second branch hears of the document. -/
theorem ingestSeven_status_eq : ∃ sync,
    (plainSystem.after twoBranches (ingestSeven .ok .ok)).branchSyncStates.lookup true =
        some sync ∧
      (sync.canonicalBinaryDocs.lookup 7 = some .pending ↔
        (plainSystem.after twoBranches (ingestSeven .ok .ok)).binaryStates.lookup 7 = none) ∧
      (sync.canonicalBinaryDocs.lookup 7 = some .ok ↔ ∃ handle,
        (plainSystem.after twoBranches (ingestSeven .ok .ok)).binaryStates.lookup 7 =
          some (some handle)) ∧
      (sync.canonicalBinaryDocs.lookup 7 = some .failed ↔
        (plainSystem.after twoBranches (ingestSeven .ok .ok)).binaryStates.lookup 7 =
          some none) := by
  have hstart : plainSystem.Reachable NoneLeftAsleep twoBranches := .start twoBranches_fresh
  have hwithin : plainSystem.RunsWithin NoneLeftAsleep twoBranches (ingestSeven .ok .ok) := by
    apply System.runsWithin_of_forall
    simp [ingestSeven, NoneLeftAsleep]
  exact ⟨_, rfl,
    BranchDb.status_eq_of_reachable (hstart.after hwithin) rfl true rfl (by decide)⟩

/-- The first reconcile fails, and the second branch goes on waiting for a document
that is there. -/
theorem failedReconcile_leaves_pending : ∃ db : PlainDb,
    plainSystem.Reachable (fun _ _ => True) db ∧ db.call = none ∧
      ∃ sync, db.branchSyncStates.lookup true = some sync ∧
        sync.canonicalBinaryDocs.lookup 7 = some .pending ∧
        db.binaryStates.lookup 7 = some (some ()) := by
  have hstart : plainSystem.Reachable (fun _ _ => True) twoBranches := .start twoBranches_fresh
  have hreach := hstart.after (System.runsWithin_true _ (ingestSeven .canonicalFails .ok))
  exact ⟨_, hreach, rfl, _, rfl, by decide, by decide⟩

end Backstitch
