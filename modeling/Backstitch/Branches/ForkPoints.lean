/-
# Fork points

A document is the set of changes that it has, merging is union, and heads are taken
as the set of changes that they name.  A call that makes a branch reads the refs that
it will record, takes the shadow documents into a new document and then records the
branch; each of these is one step, and anything may happen to the shadow documents
between two of them.  The new document is nobody else's until the branch is recorded,
so the call carries it along.
-/

import Backstitch.Library.System
import Mathlib.Data.Finset.Lattice.Lemmas

namespace Backstitch

universe u v w

/-- A branch and heads on it. -/
structure HistoryRef (κ : Type u) (χ : Type v) where
  branch : κ
  heads : Finset χ
  deriving DecidableEq

/-- What the metadata document records of a branch besides its names. -/
structure Branch (κ : Type u) (χ : Type v) where
  id : κ
  forkedFrom : Option (HistoryRef κ χ)
  mergeInto : Option (HistoryRef κ χ)
  revertedTo : Option (HistoryRef κ χ)
  deriving DecidableEq

/-- The changes that the recorded fork points name. -/
def Branch.recordedHeads {κ : Type u} {χ : Type v} [DecidableEq χ] (branch : Branch κ χ) :
    Finset χ :=
  (branch.forkedFrom.elim ∅ HistoryRef.heads) ∪ (branch.mergeInto.elim ∅ HistoryRef.heads)

/-- Where a call that makes a branch stands. -/
inductive BranchCall (κ : Type u) (χ : Type v)
  /-- `fork_branch` has its `latest_ref` and clones the shadow document next. -/
  | forking (latestRef : HistoryRef κ χ)
  /-- `create_merge_preview_branch` has `source_ref` and reads `target_ref` next. -/
  | previewing (sourceRef : HistoryRef κ χ) (target : κ)
  /-- It has both refs and merges the source next. -/
  | mergingSource (sourceRef targetRef : HistoryRef κ χ)
  /-- It has merged the source into the new document and merges the target next. -/
  | mergingTarget (sourceRef targetRef : HistoryRef κ χ) (doc : Finset χ)
  /-- `create_revert_preview_branch` has its `current_ref` and merges the branch next. -/
  | reverting (currentRef : HistoryRef κ χ) (ref : HistoryRef κ χ)
  /-- The new document is filled; `add_branch_to_meta` is next. -/
  | recording (forkedFrom : HistoryRef κ χ) (mergeInto revertedTo : Option (HistoryRef κ χ))
      (doc : Finset χ)
  deriving DecidableEq

/-- The shadow documents of a client, its calls in progress, and the branches that it
recorded, each with the heads of the new document at that moment. -/
structure ForkState (κ : Type u) (χ : Type v) (π : Type w) where
  shadow : κ → Option (Finset χ)
  calls : π → Option (BranchCall κ χ)
  recorded : List (Branch κ χ × Finset χ)

/-- The steps of the calls, and of everybody else. -/
inductive ForkAction (κ : Type u) (χ : Type v) (π : Type w)
  /-- A commit, a reconcile or a merge brings changes into a shadow document. -/
  | change (branch : κ) (changes : Finset χ)
  | forkBranch (task : π) (source : κ)
  | createMergePreviewBranch (task : π) (source target : κ)
  | createRevertPreviewBranch (task : π) (branch : κ) (ref : HistoryRef κ χ)
  /-- A call does what is next; `id` is the id of the new document when it records. -/
  | proceed (task : π) (id : κ)

variable {κ : Type u} {χ : Type v} {π : Type w} [DecidableEq κ] [DecidableEq χ] [DecidableEq π]

namespace ForkState

variable (state : ForkState κ χ π)

/-- `get_latest_ref_on_branch`. -/
def getLatestRefOnBranch (branch : κ) : Option (HistoryRef κ χ) :=
  (state.shadow branch).map fun heads => { branch, heads }

def setCall (task : π) (call : Option (BranchCall κ χ)) : ForkState κ χ π :=
  { state with calls := Function.update state.calls task call }

/-- The next step of a call; where the shadow document that it needs is not there, the
call returns an error. -/
def proceed (task : π) (id : κ) : BranchCall κ χ → ForkState κ χ π
  | .forking latestRef =>
      state.setCall task <| (state.shadow latestRef.branch).map fun doc =>
        .recording latestRef none none doc
  | .previewing sourceRef target =>
      state.setCall task <| (state.getLatestRefOnBranch target).map fun targetRef =>
        .mergingSource sourceRef targetRef
  | .mergingSource sourceRef targetRef =>
      state.setCall task <| (state.shadow sourceRef.branch).map fun doc =>
        .mergingTarget sourceRef targetRef doc
  | .mergingTarget sourceRef targetRef doc =>
      state.setCall task <| (state.shadow targetRef.branch).map fun other =>
        .recording sourceRef (some targetRef) none (doc ∪ other)
  | .reverting currentRef ref =>
      state.setCall task <| (state.shadow currentRef.branch).map fun doc =>
        .recording currentRef none (some ref) doc
  | .recording forkedFrom mergeInto revertedTo doc =>
      { state.setCall task none with
        recorded := ({ id, forkedFrom := some forkedFrom, mergeInto, revertedTo }, doc) ::
          state.recorded }

def step : ForkAction κ χ π → Option (ForkState κ χ π)
  | .change branch changes =>
      some { state with
        shadow := Function.update state.shadow branch
          (some ((state.shadow branch).getD ∅ ∪ changes)) }
  | .forkBranch task source =>
      if state.calls task = none then
        some <| state.setCall task ((state.getLatestRefOnBranch source).map .forking)
      else none
  | .createMergePreviewBranch task source target =>
      if state.calls task = none then
        some <| state.setCall task <| (state.getLatestRefOnBranch source).map fun sourceRef =>
          .previewing sourceRef target
      else none
  | .createRevertPreviewBranch task branch ref =>
      if state.calls task = none then
        some <| state.setCall task <| (state.getLatestRefOnBranch branch).map fun currentRef =>
          .reverting currentRef ref
      else none
  | .proceed task id => (state.calls task).map (state.proceed task id)

/-- A client with any shadow documents, before any of the calls. -/
def Idle : Prop :=
  (∀ task, state.calls task = none) ∧ state.recorded = []

end ForkState

/-- The shadow documents, and the calls that make branches of them. -/
def forkSystem : System (ForkState κ χ π) (ForkAction κ χ π) where
  start := ForkState.Idle
  step := ForkState.step

/-- The shadow document that a call takes into the new document next, with the changes
that its refs name. -/
def BranchCall.takes : BranchCall κ χ → Option (κ × Finset χ)
  | .forking latestRef => some (latestRef.branch, latestRef.heads)
  | .previewing _ _ => none
  | .mergingSource sourceRef targetRef =>
      some (sourceRef.branch, sourceRef.heads ∪ targetRef.heads)
  | .mergingTarget sourceRef targetRef _ =>
      some (targetRef.branch, sourceRef.heads ∪ targetRef.heads)
  | .reverting currentRef _ => some (currentRef.branch, currentRef.heads)
  | .recording .. => none

/-- A call that takes a shadow document finds no change in it that its refs do not
name. -/
def NothingArrived (state : ForkState κ χ π) : ForkAction κ χ π → Prop
  | .proceed task _ =>
      ∀ call branch recorded doc, state.calls task = some call →
        call.takes = some (branch, recorded) → state.shadow branch = some doc → doc ⊆ recorded
  | _ => True

/-! ## Fork points are exact when nothing arrives in between -/

/-- The refs of a call name changes that the shadow documents have, and the document
that it fills is on its way to what they name. -/
def BranchCall.Sound (shadow : κ → Option (Finset χ)) : BranchCall κ χ → Prop
  | .forking latestRef => latestRef.heads ⊆ (shadow latestRef.branch).getD ∅
  | .previewing sourceRef _ => sourceRef.heads ⊆ (shadow sourceRef.branch).getD ∅
  | .mergingSource sourceRef targetRef =>
      sourceRef.heads ⊆ (shadow sourceRef.branch).getD ∅ ∧
        targetRef.heads ⊆ (shadow targetRef.branch).getD ∅
  | .mergingTarget sourceRef targetRef doc =>
      sourceRef.heads ⊆ doc ∧ doc ⊆ sourceRef.heads ∪ targetRef.heads ∧
        targetRef.heads ⊆ (shadow targetRef.branch).getD ∅
  | .reverting currentRef _ => currentRef.heads ⊆ (shadow currentRef.branch).getD ∅
  | .recording forkedFrom mergeInto _ doc =>
      doc = forkedFrom.heads ∪ mergeInto.elim ∅ HistoryRef.heads

omit [DecidableEq κ] in
/-- What holds of a call still holds when shadow documents have grown. -/
theorem BranchCall.Sound.mono {shadow grown : κ → Option (Finset χ)} {call : BranchCall κ χ}
    (hsound : call.Sound shadow)
    (hgrown : ∀ branch, (shadow branch).getD ∅ ⊆ (grown branch).getD ∅) : call.Sound grown := by
  cases call with
  | forking latestRef => exact hsound.trans (hgrown _)
  | previewing sourceRef target => exact hsound.trans (hgrown _)
  | mergingSource sourceRef targetRef =>
      exact ⟨hsound.1.trans (hgrown _), hsound.2.trans (hgrown _)⟩
  | mergingTarget sourceRef targetRef doc =>
      exact ⟨hsound.1, hsound.2.1, hsound.2.2.trans (hgrown _)⟩
  | reverting currentRef ref => exact hsound.trans (hgrown _)
  | recording => exact hsound

/-- Every call is sound, and every recorded branch began as its record says. -/
structure ForkState.Exact (state : ForkState κ χ π) : Prop where
  sound : ∀ task call, state.calls task = some call → call.Sound state.shadow
  recorded : ∀ entry ∈ state.recorded, entry.2 = entry.1.recordedHeads

namespace ForkState

variable {state next : ForkState κ χ π} {task : π}

omit [DecidableEq κ] in
theorem Exact.setCall (hexact : state.Exact) {newCall : Option (BranchCall κ χ)}
    (hcall : ∀ call, newCall = some call → call.Sound state.shadow) :
    (state.setCall task newCall).Exact := by
  constructor
  · intro other call hother
    by_cases heq : other = task
    · subst heq
      exact hcall call (by simpa [ForkState.setCall] using hother)
    · exact hexact.sound other call (by simpa [ForkState.setCall, heq] using hother)
  · exact hexact.recorded

omit [DecidableEq κ] [DecidableEq χ] [DecidableEq π] in
theorem sound_getLatestRefOnBranch {branch : κ} {ref : HistoryRef κ χ}
    (href : state.getLatestRefOnBranch branch = some ref) :
    ref.heads ⊆ (state.shadow ref.branch).getD ∅ := by
  obtain ⟨heads, hheads, rfl⟩ := Option.map_eq_some_iff.mp href
  simp [hheads]

omit [DecidableEq κ] in
/-- A step of a call that finds nothing new keeps its promises. -/
theorem Exact.proceed (hexact : state.Exact) {call : BranchCall κ χ} (id : κ)
    (hcall : state.calls task = some call)
    (hnothing : ∀ branch recorded doc, call.takes = some (branch, recorded) →
      state.shadow branch = some doc → doc ⊆ recorded) :
    (state.proceed task id call).Exact := by
  have hsound := hexact.sound task call hcall
  cases call with
  | forking latestRef =>
      apply hexact.setCall
      intro next hnext
      obtain ⟨doc, hdoc, rfl⟩ := Option.map_eq_some_iff.mp hnext
      have hbelow : latestRef.heads ⊆ doc := by simpa [BranchCall.Sound, hdoc] using hsound
      have habove := hnothing _ _ doc rfl hdoc
      show doc = latestRef.heads ∪ ∅
      rw [Finset.union_empty]
      exact Finset.Subset.antisymm habove hbelow
  | previewing sourceRef target =>
      apply hexact.setCall
      intro next hnext
      obtain ⟨targetRef, htarget, rfl⟩ := Option.map_eq_some_iff.mp hnext
      exact ⟨hsound, sound_getLatestRefOnBranch htarget⟩
  | mergingSource sourceRef targetRef =>
      apply hexact.setCall
      intro next hnext
      obtain ⟨doc, hdoc, rfl⟩ := Option.map_eq_some_iff.mp hnext
      have hbelow : sourceRef.heads ⊆ doc := by simpa [hdoc] using hsound.1
      exact ⟨hbelow, hnothing _ _ doc rfl hdoc, hsound.2⟩
  | mergingTarget sourceRef targetRef doc =>
      apply hexact.setCall
      intro next hnext
      obtain ⟨other, hother, rfl⟩ := Option.map_eq_some_iff.mp hnext
      obtain ⟨hsource, hdoc, htarget⟩ := hsound
      have hbelow : targetRef.heads ⊆ other := by simpa [hother] using htarget
      have habove := hnothing _ _ other rfl hother
      show doc ∪ other = sourceRef.heads ∪ targetRef.heads
      apply Finset.Subset.antisymm
      · exact Finset.union_subset hdoc habove
      · exact Finset.union_subset_union hsource hbelow
  | reverting currentRef ref =>
      apply hexact.setCall
      intro next hnext
      obtain ⟨doc, hdoc, rfl⟩ := Option.map_eq_some_iff.mp hnext
      have hbelow : currentRef.heads ⊆ doc := by simpa [BranchCall.Sound, hdoc] using hsound
      have habove := hnothing _ _ doc rfl hdoc
      show doc = currentRef.heads ∪ ∅
      rw [Finset.union_empty]
      exact Finset.Subset.antisymm habove hbelow
  | recording forkedFrom mergeInto revertedTo doc =>
      have hended : (state.setCall task none).Exact := hexact.setCall nofun
      constructor
      · exact hended.sound
      · intro entry hentry
        rcases List.mem_cons.mp hentry with rfl | hentry
        · exact hsound
        · exact hexact.recorded entry hentry

/-- **Step lemma.** -/
theorem Exact.step (hexact : state.Exact) {action : ForkAction κ χ π}
    (hnothing : NothingArrived state action) (hstep : state.step action = some next) :
    next.Exact := by
  cases action with
  | change branch changes =>
      cases hstep
      constructor
      · intro task call hcall
        apply (hexact.sound task call hcall).mono
        intro other
        by_cases heq : other = branch
        · subst heq
          simp
        · simp [heq]
      · exact hexact.recorded
  | forkBranch task source =>
      obtain ⟨-, rfl⟩ := Option.ite_none_right_eq_some.mp hstep |>.imp_right Option.some.inj
      apply hexact.setCall
      intro call hcall
      obtain ⟨ref, href, rfl⟩ := Option.map_eq_some_iff.mp hcall
      exact sound_getLatestRefOnBranch href
  | createMergePreviewBranch task source target =>
      obtain ⟨-, rfl⟩ := Option.ite_none_right_eq_some.mp hstep |>.imp_right Option.some.inj
      apply hexact.setCall
      intro call hcall
      obtain ⟨ref, href, rfl⟩ := Option.map_eq_some_iff.mp hcall
      exact sound_getLatestRefOnBranch href
  | createRevertPreviewBranch task branch ref =>
      obtain ⟨-, rfl⟩ := Option.ite_none_right_eq_some.mp hstep |>.imp_right Option.some.inj
      apply hexact.setCall
      intro call hcall
      obtain ⟨currentRef, hcurrent, rfl⟩ := Option.map_eq_some_iff.mp hcall
      exact sound_getLatestRefOnBranch hcurrent
  | proceed task id =>
      obtain ⟨call, hcall, rfl⟩ := Option.map_eq_some_iff.mp hstep
      exact hexact.proceed id hcall fun branch recorded doc =>
        hnothing call branch recorded doc hcall

/-- **In every run in which no call takes a change that arrived after it had read its
refs, every branch begins with exactly the changes that its record names.** -/
theorem recordedHeads_eq_of_reachable (hreach : forkSystem.Reachable NothingArrived state)
    {branch : Branch κ χ} {heads : Finset χ} (hrecorded : (branch, heads) ∈ state.recorded) :
    heads = branch.recordedHeads := by
  have hexact : state.Exact := by
    apply hreach.invariant
    · intro state ⟨hcalls, hnone⟩
      constructor
      · intro task call hcall
        rw [hcalls task] at hcall
        nomatch hcall
      · intro entry hentry
        rw [hnone] at hentry
        nomatch hentry
    · exact fun _ _ _ hexact hnothing hstep => hexact.step hnothing hstep
  exact hexact.recorded _ hrecorded

end ForkState

/-! ## A fork in peace, and a fork with a commit in between -/

/-- One branch whose shadow document has one change. -/
def oneBranch : ForkState Bool Nat Unit where
  shadow branch := if branch then none else some {0}
  calls _ := none
  recorded := []

/-- A fork of the branch that nobody disturbs. -/
def quietFork : List (ForkAction Bool Nat Unit) :=
  [.forkBranch () false, .proceed () true, .proceed () true]

/-- A commit lands after the fork has read its ref and before it clones. -/
def hurriedFork : List (ForkAction Bool Nat Unit) :=
  [.forkBranch () false, .change false {1}, .proceed () true, .proceed () true]

/-- The record that both make. -/
def forkedBranch : Branch Bool Nat where
  id := true
  forkedFrom := some { branch := false, heads := {0} }
  mergeInto := none
  revertedTo := none

theorem oneBranch_idle : oneBranch.Idle :=
  ⟨fun _ => rfl, rfl⟩

/-- The undisturbed fork begins where its record says. -/
theorem quietFork_recordedHeads :
    (forkedBranch, {0}) ∈ (forkSystem.after oneBranch quietFork).recorded ∧
      {0} = forkedBranch.recordedHeads := by
  have hwithin : forkSystem.RunsWithin NothingArrived oneBranch quietFork := by
    refine ⟨trivial, fun _ hfork => ⟨?_, fun _ hclone => ⟨?_, fun _ _ => trivial⟩⟩⟩
    · cases hfork
      intro call branch recorded doc hcall htakes hdoc
      cases hcall
      cases htakes
      cases hdoc
      exact Finset.Subset.refl _
    · cases hfork
      cases hclone
      intro call branch recorded doc hcall htakes
      cases hcall
      nomatch htakes
  have hrecorded : (forkedBranch, ({0} : Finset Nat)) ∈
      (forkSystem.after oneBranch quietFork).recorded := List.mem_singleton_self _
  have hstart : forkSystem.Reachable NothingArrived oneBranch := .start oneBranch_idle
  exact ⟨hrecorded, ForkState.recordedHeads_eq_of_reachable (hstart.after hwithin) hrecorded⟩

/-- The fork with a commit in between has a change that its record does not name. -/
theorem hurriedFork_not_recordedHeads : ∃ state : ForkState Bool Nat Unit,
    forkSystem.Reachable (fun _ _ => True) state ∧
      ∃ heads, (forkedBranch, heads) ∈ state.recorded ∧ heads ≠ forkedBranch.recordedHeads := by
  have hstart : forkSystem.Reachable (fun _ _ => True) oneBranch := .start oneBranch_idle
  have hreach := hstart.after (System.runsWithin_true _ hurriedFork)
  exact ⟨_, hreach, ({0} ∪ {1} : Finset Nat), List.mem_singleton_self _, by decide⟩

end Backstitch
