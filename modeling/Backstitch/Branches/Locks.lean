/-
# The locks of a branch database

Each operation of the branch database takes its locks in scopes between which it
holds none.  A scope takes `binary_states` before `branch_sync_states` before the
state of a branch, with two exceptions: `clear_branch_states` takes
`branch_sync_states` before `binary_states`, and a merge keeps the state of its source
while it takes `branch_sync_states` and the state of its target.

A phase says which locks a task holds and which one it takes next; it takes a lock
when nobody holds it.  The mutex of one branch's state is named by the branch.
-/

import Backstitch.Library.Cycles
import Backstitch.Library.System

namespace Backstitch

universe u v

open Relation

inductive Lock (κ : Type u)
  | metadataState
  | branchSyncStates
  | binaryStates
  | state (branch : κ)
  deriving DecidableEq

/-- A part of an operation that starts and ends without a lock. -/
inductive LockScope (κ : Type u)
  /-- Take one lock and give it back. -/
  | brief (lock : Lock κ)
  /-- Take `branch_sync_states`, after `binary_states` if `both` is set, and then the
  states of these branches one after the other. -/
  | underSync (both : Bool) (states : List κ)
  /-- Take `branch_sync_states` and then `binary_states`. -/
  | clear
  /-- Keep the state of the source, look the target up under `branch_sync_states`, give
  that back, and take the state of the target if there is one. -/
  | nested (source : κ) (target : Option κ)

/-- What `with_shadow_document` finds under `branch_sync_states`. -/
inductive Lookup
  | missing
  /-- The branch is there, its shadow document is not. -/
  | uninitialized
  | ready
  deriving DecidableEq

/-- The operations; what they find in the tables, as far as it decides which locks they
take, is an argument. -/
inductive BranchOp (κ : Type u)
  /-- `get_branch_state` and whatever else reads or writes `metadata_state` only. -/
  | getBranchState
  /-- `has_binary_doc`, `get_linked_file`. -/
  | hasBinaryDoc
  /-- `with_shadow_document` around a closure that takes no lock;
  `get_latest_canonical_ref_on_branch` takes the same locks. -/
  | withShadowDocument (branch : κ) (sees : Lookup)
  /-- `canonical_branch_status`; `is_branch_loaded`, `wait_for_shadow_doc`,
  `get_canonical_changes` and `dump_branch_doc` take the same locks. -/
  | canonicalBranchStatus (branch : κ) (found : Bool)
  | clearBranchStates
  /-- The branches in the order in which they are visited, each with whether it links
  the document and is reconciled. -/
  | ingestBinaryDoc (visits : List (κ × Bool))
  | updateBranchSyncState (branch : κ) (reconciles : Bool)
  /-- What is left of `commit_fs_changes` once its binary documents are created. -/
  | commitFsChanges (branch : κ) (found reconciles : Bool)
  | mergeBranch (source target : κ) (seesSource seesTarget : Lookup) (previews marks : Bool)
      (found : Bool)
  | confirmRevertPreviewBranch (preview target : κ) (seesPreview seesTarget : Lookup)
      (found : Bool)

variable {κ : Type u} {π : Type v}

def shadowScopes (branch : κ) : Lookup → List (LockScope κ)
  | .missing => [.brief .branchSyncStates]
  | _ => [.brief .branchSyncStates, .brief (.state branch)]

/-- `with_shadow_document` on the target within one on the source. -/
def nestedScopes (source target : κ) : Lookup → Lookup → List (LockScope κ)
  | .ready, .missing => [.brief .branchSyncStates, .nested source none]
  | .ready, _ => [.brief .branchSyncStates, .nested source (some target)]
  | sees, _ => shadowScopes source sees

/-- The scopes of an operation, in order. -/
def BranchOp.scopes [DecidableEq κ] : BranchOp κ → List (LockScope κ)
  | .getBranchState => [.brief .metadataState]
  | .hasBinaryDoc => [.brief .binaryStates]
  | .withShadowDocument branch sees => shadowScopes branch sees
  | .canonicalBranchStatus branch found => [.underSync false (if found then [branch] else [])]
  | .clearBranchStates => [.clear]
  | .ingestBinaryDoc visits =>
      [.underSync true (visits.flatMap fun visit =>
        if visit.2 then [visit.1, visit.1] else [visit.1])]
  | .updateBranchSyncState branch reconciles =>
      [.underSync true (branch :: if reconciles then [branch] else [])]
  | .commitFsChanges branch found reconciles =>
      [.underSync false
        (if found then branch :: (if reconciles then [branch] else []) else [])]
  | .mergeBranch source target seesSource seesTarget previews marks found =>
      if source = target then [.brief .metadataState]
      else
        .brief .metadataState :: nestedScopes source target seesSource seesTarget ++
        (if previews then [.brief .metadataState] else []) ++
        (if marks then shadowScopes target .ready else []) ++
        [.underSync false (if found then [target] else [])]
  | .confirmRevertPreviewBranch preview target seesPreview seesTarget found =>
      .brief .metadataState :: nestedScopes preview target seesPreview seesTarget ++
      [.underSync false (if found then [target] else [])]

/-- Where a task stands in a scope. -/
inductive Phase (κ : Type u)
  | idle
  | wait (lock : Lock κ)
  /-- One lock is left to be given back. -/
  | hold (lock : Lock κ)
  | waitBinary (states : List κ)
  | waitSync (states : List κ)
  /-- `binary_states` is held, `branch_sync_states` is next. -/
  | binary (states : List κ)
  /-- `branch_sync_states` is held, and so is `binary_states` if `both` is set. -/
  | sync (both : Bool) (states : List κ)
  | syncState (both : Bool) (branch : κ) (rest : List κ)
  | clearWait
  /-- `branch_sync_states` is held, `binary_states` is next. -/
  | clearSync
  | clearBoth
  | nestWait (source : κ) (target : Option κ)
  /-- The state of the source is held, `branch_sync_states` is next. -/
  | nestSource (source : κ) (target : Option κ)
  | nestSync (source : κ) (target : Option κ)
  /-- The state of the source is held, that of the target is next. -/
  | nestTarget (source target : κ)
  | nestBoth (source target : κ)
  deriving DecidableEq

def LockScope.start : LockScope κ → Phase κ
  | .brief lock => .wait lock
  | .underSync true states => .waitBinary states
  | .underSync false states => .waitSync states
  | .clear => .clearWait
  | .nested source target => .nestWait source target

namespace Phase

/-- The lock that is taken next. -/
def wants : Phase κ → Option (Lock κ)
  | .wait lock => some lock
  | .waitBinary _ => some .binaryStates
  | .waitSync _ => some .branchSyncStates
  | .binary _ => some .branchSyncStates
  | .sync _ (branch :: _) => some (.state branch)
  | .clearWait => some .branchSyncStates
  | .clearSync => some .binaryStates
  | .nestWait source _ => some (.state source)
  | .nestSource _ _ => some .branchSyncStates
  | .nestTarget _ target => some (.state target)
  | _ => none

/-- The locks that are held. -/
def held : Phase κ → List (Lock κ)
  | .hold lock => [lock]
  | .binary _ => [.binaryStates]
  | .sync both _ => .branchSyncStates :: if both then [.binaryStates] else []
  | .syncState both branch _ =>
      .state branch :: .branchSyncStates :: if both then [.binaryStates] else []
  | .clearSync => [.branchSyncStates]
  | .clearBoth => [.binaryStates, .branchSyncStates]
  | .nestSource source _ => [.state source]
  | .nestSync source _ => [.branchSyncStates, .state source]
  | .nestTarget source _ => [.state source]
  | .nestBoth source target => [.state target, .state source]
  | _ => []

/-- The phase after a lock is taken or given back. -/
def advance : Phase κ → Phase κ
  | .idle => .idle
  | .wait lock => .hold lock
  | .hold _ => .idle
  | .waitBinary states => .binary states
  | .waitSync states => .sync false states
  | .binary states => .sync true states
  | .sync both (branch :: rest) => .syncState both branch rest
  | .sync true [] => .hold .binaryStates
  | .sync false [] => .idle
  | .syncState both _ rest => .sync both rest
  | .clearWait => .clearSync
  | .clearSync => .clearBoth
  | .clearBoth => .hold .branchSyncStates
  | .nestWait source target => .nestSource source target
  | .nestSource source target => .nestSync source target
  | .nestSync source (some target) => .nestTarget source target
  | .nestSync source none => .hold (.state source)
  | .nestTarget source target => .nestBoth source target
  | .nestBoth source _ => .hold (.state source)

/-- The states that are taken before `branch_sync_states` is given back. -/
def statesUnderSync : Phase κ → List κ
  | .sync _ states => states
  | .syncState _ _ rest => rest
  | _ => []

/-- The source that is held and the target that is still to be taken. -/
def nesting : Phase κ → Option (κ × κ)
  | .nestSource source target => target.map (Prod.mk source)
  | .nestSync source target => target.map (Prod.mk source)
  | .nestTarget source target => some (source, target)
  | _ => none

/-- Taking a lock adds just that one to those held. -/
theorem mem_held_advance_iff {phase : Phase κ} {lock other : Lock κ}
    (hwants : phase.wants = some lock) :
    other ∈ phase.advance.held ↔ other = lock ∨ other ∈ phase.held := by
  cases phase with
  | sync both states =>
      cases states with
      | nil => nomatch hwants
      | cons branch rest =>
          cases hwants
          cases both <;> simp [advance, held]
  | _ => cases hwants <;> simp [advance, held]

/-- Nothing is taken where nothing is next. -/
theorem held_advance_subset {phase : Phase κ} (hwants : phase.wants = none) :
    phase.advance.held ⊆ phase.held := by
  cases phase with
  | sync both states =>
      cases states with
      | nil => cases both <;> simp [advance, held]
      | cons branch rest => nomatch hwants
  | nestSync source target => cases target <;> simp [advance, held]
  | syncState both branch rest => cases both <;> simp [advance, held]
  | _ => simp_all [advance, held, wants]

/-- Where the phase after a step has a target to take, it had it before or has just taken
its source. -/
theorem nesting_advance {phase : Phase κ} {source target : κ}
    (hnesting : phase.advance.nesting = some (source, target)) :
    phase.nesting = some (source, target) ∨ phase = .nestWait source (some target) := by
  cases phase with
  | sync both states => cases states <;> cases both <;> nomatch hnesting
  | nestWait first second => cases second <;> simp_all [advance, nesting]
  | nestSource first second => exact .inl hnesting
  | nestSync first second => cases second <;> simp_all [advance, nesting]
  | _ => nomatch hnesting

/-- A state is still to be taken under `branch_sync_states` because it was, or because
`branch_sync_states` has just been taken. -/
theorem statesUnderSync_advance {phase : Phase κ} {branch : κ}
    (hmem : branch ∈ phase.advance.statesUnderSync) :
    branch ∈ phase.statesUnderSync ∨
      ∃ states, branch ∈ states ∧ (phase = .waitSync states ∨ phase = .binary states) := by
  cases phase with
  | waitSync states => exact .inr ⟨states, hmem, .inl rfl⟩
  | binary states => exact .inr ⟨states, hmem, .inr rfl⟩
  | sync both states =>
      cases states with
      | nil => cases both <;> nomatch hmem
      | cons first rest => exact .inl (List.mem_cons_of_mem first hmem)
  | syncState both first rest => exact .inl hmem
  | nestSync first second => cases second <;> nomatch hmem
  | _ => nomatch hmem

theorem eq_nestWait_of_advance {phase : Phase κ} {source : κ} {target : Option κ}
    (hadvance : phase.advance = .nestSource source target) :
    phase = .nestWait source target := by
  cases phase with
  | sync both states => cases states <;> cases both <;> nomatch hadvance
  | nestWait first second => cases hadvance; rfl
  | nestSync first second => cases second <;> nomatch hadvance
  | _ => nomatch hadvance

theorem eq_clearWait_of_advance {phase : Phase κ} (hadvance : phase.advance = .clearSync) :
    phase = .clearWait := by
  cases phase with
  | sync both states => cases states <;> cases both <;> nomatch hadvance
  | clearWait => rfl
  | nestSync first second => cases second <;> nomatch hadvance
  | _ => nomatch hadvance

theorem eq_waitBinary_of_advance {phase : Phase κ} {states : List κ}
    (hadvance : phase.advance = .binary states) : phase = .waitBinary states := by
  cases phase with
  | sync both states => cases states <;> cases both <;> nomatch hadvance
  | waitBinary states => cases hadvance; rfl
  | nestSync first second => cases second <;> nomatch hadvance
  | _ => nomatch hadvance

/-- What a phase has that matters to the lock order, it has from the phase before. -/
structure Follows (before phase : Phase κ) : Prop where
  nesting : ∀ {source target}, phase.nesting = some (source, target) →
    before.nesting = some (source, target) ∨ before = .nestWait source (some target)
  underSync : ∀ {branch}, branch ∈ phase.statesUnderSync → branch ∈ before.statesUnderSync ∨
    ∃ states, branch ∈ states ∧ (before = .waitSync states ∨ before = .binary states)
  nestSource : ∀ {source target}, phase = .nestSource source target →
    before = .nestWait source target
  clearSync : phase = .clearSync → before = .clearWait
  binary : ∀ {states}, phase = .binary states → before = .waitBinary states

theorem follows_advance (phase : Phase κ) : Follows phase phase.advance where
  nesting := nesting_advance
  underSync := statesUnderSync_advance
  nestSource := eq_nestWait_of_advance
  clearSync := eq_clearWait_of_advance
  binary := eq_waitBinary_of_advance

theorem held_start (scope : LockScope κ) : scope.start.held = [] := by
  cases scope with
  | underSync both states => cases both <;> rfl
  | _ => rfl

/-- A scope starts with nothing that matters to the lock order. -/
theorem follows_start (before : Phase κ) (scope : LockScope κ) : Follows before scope.start := by
  have hnesting : scope.start.nesting = none := by
    cases scope with
    | underSync both states => cases both <;> rfl
    | _ => rfl
  have hunder : scope.start.statesUnderSync = [] := by
    cases scope with
    | underSync both states => cases both <;> rfl
    | _ => rfl
  have hheld := held_start scope
  constructor
  · intro source target h
    nomatch hnesting.symm.trans h
  · intro branch h
    rw [hunder] at h
    nomatch h
  · intro source target h
    rw [h] at hheld
    nomatch hheld
  · intro h
    rw [h] at hheld
    nomatch hheld
  · intro states h
    rw [h] at hheld
    nomatch hheld

end Phase

/-- Who holds which lock, and where every task stands. -/
structure LockState (κ : Type u) (π : Type v) where
  holder : Lock κ → Option π
  phase : π → Phase κ
  rest : π → List (LockScope κ)

inductive LockAction (κ : Type u) (π : Type v)
  | call (task : π) (op : BranchOp κ)
  /-- A task between two scopes starts the next one. -/
  | begin (task : π)
  /-- A task between two scopes returns with an error. -/
  | quit (task : π)
  /-- A task takes the next lock or gives one back. -/
  | proceed (task : π)

namespace LockState

variable [DecidableEq κ] [DecidableEq π] (state : LockState κ π)

def setPhase (task : π) (phase : Phase κ) : LockState κ π :=
  { state with phase := Function.update state.phase task phase }

/-- Take the lock that is next, if nobody holds it. -/
def acquire (task : π) (lock : Lock κ) : Option (LockState κ π) :=
  if state.holder lock = none then
    some { state.setPhase task (state.phase task).advance with
      holder := Function.update state.holder lock (some task) }
  else none

/-- Give a lock back. -/
def release (task : π) : LockState κ π :=
  { state.setPhase task (state.phase task).advance with
    holder := fun lock =>
      if lock ∈ (state.phase task).held ∧ lock ∉ (state.phase task).advance.held then none
      else state.holder lock }

def step : LockAction κ π → Option (LockState κ π)
  | .call task op =>
      if state.phase task = .idle ∧ (state.rest task).isEmpty then
        some { state with rest := Function.update state.rest task op.scopes }
      else none
  | .begin task =>
      match state.rest task with
      | [] => none
      | next :: rest =>
          if state.phase task = .idle then
            some { state.setPhase task next.start with
              rest := Function.update state.rest task rest }
          else none
  | .quit task =>
      if state.phase task = .idle then
        some { state with rest := Function.update state.rest task [] }
      else none
  | .proceed task =>
      match (state.phase task).wants with
      | some lock => state.acquire task lock
      | none => some (state.release task)

/-- Nobody holds or does anything. -/
def Idle : Prop :=
  (∀ lock, state.holder lock = none) ∧ (∀ task, state.phase task = .idle) ∧
    ∀ task, state.rest task = []

/-- A task waits for a lock that another one holds. -/
def Waits (waiting holding : π) : Prop :=
  ∃ lock, (state.phase waiting).wants = some lock ∧ state.holder lock = some holding

/-- Some tasks wait for one another in a ring. -/
def Deadlocked : Prop :=
  ∃ task, TransGen state.Waits task task

end LockState

/-- Any number of tasks that call the operations. -/
def lockSystem [DecidableEq κ] [DecidableEq π] : System (LockState κ π) (LockAction κ π) where
  start := LockState.Idle
  step := LockState.step

end Backstitch
