/-
# Cancelling an authentication

An `authenticate` or `deauthenticate` replaces the token under a write lock and keeps a read
lock until it returns, so the others wait to write.  `cancel_wait` cancels the token under a
read lock: it gets one while a call waits for the user, unless other calls wait to write.
-/

import Backstitch.Auth.ServerManager
import Backstitch.Library.RwLock

namespace Backstitch

universe u

/-- Where a call stands. -/
inductive TokenCall
  | idle
  /-- It waits to write. -/
  | queued (op : AuthOp)
  /-- It has replaced the token, and is about to downgrade its lock. -/
  | writing (op : AuthOp)
  | lookingUp (op : AuthOp)
  /-- It waits for the user, and for its token. -/
  | interacting (op : AuthOp)
  | storing (outcome : AuthOutcome)
  | ended (outcome : AuthOutcome)
  /-- `cancel_wait` waits to read. -/
  | cancelQueued
  /-- `cancel_wait` has cancelled the token. -/
  | cancelling
  | returned
  deriving DecidableEq

inductive TokenAction (ι : Type u)
  | authenticate (call : ι)
  | deauthenticate (call : ι) (oidc : Bool)
  | replaceToken (call : ι)
  | downgrade (call : ι)
  | lookUp (call : ι) (cached : Bool)
  | observeCancel (call : ι)
  /-- The authenticator returns what the user has done. -/
  | answer (call : ι) (ok : Bool)
  | store (call : ι)
  | cancelWait (call : ι)
  | cancel (call : ι)
  | cancelReturns (call : ι)
  deriving DecidableEq

/-- The call that takes a step. -/
def TokenAction.call {ι : Type u} : TokenAction ι → ι
  | .authenticate call | .deauthenticate call _ | .replaceToken call | .downgrade call
  | .lookUp call _ | .observeCancel call | .answer call _ | .store call | .cancelWait call
  | .cancel call | .cancelReturns call => call

/-- The `auth_token` of a `ServerManager` with the calls that use it.  A token is named by
the call that made it. -/
structure AuthToken (ι : Type u) where
  lock : RwLock ι
  token : Option ι
  cancelled : List ι
  calls : ι → TokenCall

namespace AuthToken

variable {ι : Type u} [DecidableEq ι] (state : AuthToken ι)

def new : AuthToken ι := ⟨.free, none, [], fun _ => .idle⟩

def setCall (call : ι) (phase : TokenCall) : AuthToken ι :=
  { state with calls := Function.update state.calls call phase }

def request (call : ι) (mode : LockMode) : AuthToken ι :=
  { state with lock := state.lock.request call mode }

/-- A call returns, and its read lock is given back. -/
def finish (call : ι) (phase : TokenCall) : AuthToken ι :=
  { state with lock := state.lock.releaseRead call }.setCall call phase

/-- The token is cancelled, if there is one. -/
def cancelToken : AuthToken ι :=
  { state with cancelled := state.token.toList ++ state.cancelled }

def step : TokenAction ι → Option (AuthToken ι)
  | .authenticate call =>
      match state.calls call with
      | .idle => some ((state.request call .write).setCall call (.queued .authenticate))
      | _ => none
  | .deauthenticate call oidc =>
      match state.calls call with
      | .idle =>
          if oidc then some ((state.request call .write).setCall call (.queued .deauthenticate))
          else some (state.setCall call (.ended .ok))
      | _ => none
  | .replaceToken call =>
      match state.calls call with
      | .queued op =>
          if state.lock.writer = some call then
            some ({ state.cancelToken with token := some call }.setCall call (.writing op))
          else none
      | _ => none
  | .downgrade call =>
      match state.calls call with
      | .writing op =>
          some ({ state with lock := state.lock.downgrade call }.setCall call (.lookingUp op))
      | _ => none
  | .lookUp call cached =>
      match state.calls call with
      | .lookingUp .authenticate =>
          if cached then some (state.finish call (.ended .ok))
          else some (state.setCall call (.interacting .authenticate))
      | .lookingUp .deauthenticate => some (state.setCall call (.interacting .deauthenticate))
      | _ => none
  | .observeCancel call =>
      match state.calls call with
      | .interacting _ =>
          if call ∈ state.cancelled then some (state.finish call (.ended .cancelled)) else none
      | _ => none
  | .answer call ok =>
      match state.calls call, ok with
      | .interacting _, true => some (state.setCall call (.storing .ok))
      | .interacting .deauthenticate, false => some (state.setCall call (.storing .failed))
      | .interacting .authenticate, false => some (state.finish call (.ended .failed))
      | _, _ => none
  | .store call =>
      match state.calls call with
      | .storing outcome => some (state.finish call (.ended outcome))
      | _ => none
  | .cancelWait call =>
      match state.calls call with
      | .idle => some ((state.request call .read).setCall call .cancelQueued)
      | _ => none
  | .cancel call =>
      match state.calls call with
      | .cancelQueued =>
          if call ∈ state.lock.readers then some (state.cancelToken.setCall call .cancelling)
          else none
      | _ => none
  | .cancelReturns call =>
      match state.calls call with
      | .cancelling => some (state.finish call .returned)
      | _ => none

end AuthToken

/-- An `auth_token`, with any calls. -/
def tokenSystem (ι : Type u) [DecidableEq ι] : System (AuthToken ι) (TokenAction ι) where
  start state := state = .new
  step := AuthToken.step

namespace AuthToken

variable {ι : Type u}

/-! ## What is said of a cancellation -/

section Cancellation

variable (state : AuthToken ι) (call : ι)

def WaitsForUser : Prop := ∃ op, state.calls call = .interacting op

/-- An `authenticate` or `deauthenticate` waits for the lock. -/
def Queued : Prop := (call, LockMode.write) ∈ state.lock.queue

/-- A `cancel_wait` waits for the lock. -/
def Blocked : Prop := state.calls call = .cancelQueued ∧ (call, LockMode.read) ∈ state.lock.queue

/-- A call does not wait for the user, and ends with `UserCancelled` if it ends. -/
def EndsCancelled : Prop :=
  match state.calls call with
  | .queued _ | .writing _ | .lookingUp _ => True
  | .interacting _ => call ∈ state.cancelled
  | .ended outcome => outcome = .cancelled
  | _ => False

/-- What is promised of `cancel_wait` in the runs whose steps are all allowed. -/
structure CancelsAll [DecidableEq ι] (allowed : AuthToken ι → TokenAction ι → Prop) : Prop where
  /-- It is not blocked while a call waits for the user. -/
  unblocked : ∀ state, (tokenSystem ι).Reachable allowed state →
    ∀ call other, state.Blocked call → ¬ state.WaitsForUser other
  /-- What waits for the user when it returns is cancelled. -/
  running : ∀ state, (tokenSystem ι).Reachable allowed state →
    ∀ call next, (tokenSystem ι).step state (.cancelReturns call) = some next →
    ∀ other, state.WaitsForUser other →
    ∀ later, (tokenSystem ι).Leads allowed next later → later.EndsCancelled other
  /-- What was queued when it was called is cancelled once it has returned. -/
  queued : ∀ state, (tokenSystem ι).Reachable allowed state →
    ∀ call waits, allowed state (.cancelWait call) →
    (tokenSystem ι).step state (.cancelWait call) = some waits →
    ∀ returns, (tokenSystem ι).Leads allowed waits returns →
    ∀ next, (tokenSystem ι).step returns (.cancelReturns call) = some next →
    ∀ other, state.Queued other →
    ∀ later, (tokenSystem ι).Leads allowed next later → later.EndsCancelled other

end Cancellation

/-! ## The lock and the token -/

/-- What the lock and the token have to be for a call to be where it stands. -/
def Fits (state : AuthToken ι) (call : ι) : TokenCall → Prop
  | .writing _ => state.lock.writer = some call ∧ state.token = some call
  | .lookingUp _ | .interacting _ | .storing _ =>
      call ∈ state.lock.readers ∧ state.token = some call
  | .cancelling =>
      call ∈ state.lock.readers ∧ ∀ token, state.token = some token → token ∈ state.cancelled
  | _ => True

structure Tidy (state : AuthToken ι) : Prop where
  exclusive : state.lock.Exclusive
  settled : state.lock.Settled
  calls : ∀ call, state.Fits call (state.calls call)

variable [DecidableEq ι] {state next : AuthToken ι} {action : TokenAction ι} {call other : ι}
  {phase : TokenCall}

omit [DecidableEq ι] in
/-- A call stays where it fits while its lock, the token and what is cancelled stay. -/
theorem Fits.mono (hfits : state.Fits call phase)
    (hreaders : call ∈ state.lock.readers → call ∈ next.lock.readers)
    (hwriter : state.lock.writer = some call → next.lock.writer = some call)
    (htoken : next.token = state.token) (hcancelled : state.cancelled ⊆ next.cancelled) :
    next.Fits call phase := by
  have hrunning (hruns : call ∈ state.lock.readers ∧ state.token = some call) :
      call ∈ next.lock.readers ∧ next.token = some call :=
    ⟨hreaders hruns.1, htoken.trans hruns.2⟩
  cases phase with
  | idle => trivial
  | queued op => trivial
  | writing op => exact ⟨hwriter hfits.1, htoken.trans hfits.2⟩
  | lookingUp op => exact hrunning hfits
  | interacting op => exact hrunning hfits
  | storing outcome => exact hrunning hfits
  | ended outcome => trivial
  | cancelQueued => trivial
  | cancelling =>
      refine ⟨hreaders hfits.1, fun token hsome => hcancelled (hfits.2 token ?_)⟩
      rw [← htoken, hsome]
  | returned => trivial

omit [DecidableEq ι] in
/-- A call without the lock is where it is whatever the token. -/
theorem Fits.of_absent (hfits : state.Fits call phase) (hreader : call ∉ state.lock.readers)
    (hwriter : state.lock.writer ≠ some call) : next.Fits call phase := by
  cases phase with
  | idle => trivial
  | queued op => trivial
  | writing op => exact absurd hfits.1 hwriter
  | lookingUp op => exact absurd hfits.1 hreader
  | interacting op => exact absurd hfits.1 hreader
  | storing outcome => exact absurd hfits.1 hreader
  | ended outcome => trivial
  | cancelQueued => trivial
  | cancelling => exact absurd hfits.1 hreader
  | returned => trivial

@[simp] theorem calls_setCall_self : (state.setCall call phase).calls call = phase :=
  Function.update_self _ _ _

theorem calls_setCall_of_ne (hne : other ≠ call) :
    (state.setCall call phase).calls other = state.calls other :=
  Function.update_of_ne hne _ _

/-- **A call that moves on, under the token that is there.** -/
theorem Tidy.act (htidy : state.Tidy) (hcalls : next.calls = state.calls)
    (htoken : next.token = state.token) (hcancelled : state.cancelled ⊆ next.cancelled)
    (hexclusive : next.lock.Exclusive) (hsettled : next.lock.Settled)
    (hreaders : ∀ other ≠ call, other ∈ state.lock.readers → other ∈ next.lock.readers)
    (hwriter : ∀ other ≠ call, state.lock.writer = some other → next.lock.writer = some other)
    (hfits : next.Fits call phase) : (next.setCall call phase).Tidy where
  exclusive := hexclusive
  settled := hsettled
  calls other := by
    by_cases heq : other = call
    · rw [heq, calls_setCall_self]
      exact hfits
    · rw [calls_setCall_of_ne heq, hcalls]
      exact (htidy.calls other).mono (hreaders other heq) (hwriter other heq) htoken hcancelled

theorem Tidy.setCall (htidy : state.Tidy) (hfits : state.Fits call phase) :
    (state.setCall call phase).Tidy :=
  htidy.act rfl rfl (List.Subset.refl _) htidy.exclusive htidy.settled (fun _ _ => id)
    (fun _ _ => id) hfits

theorem Tidy.request (htidy : state.Tidy) {mode : LockMode}
    (hfits : (state.request call mode).Fits call phase) :
    ((state.request call mode).setCall call phase).Tidy :=
  htidy.act rfl rfl (List.Subset.refl _) htidy.exclusive.request RwLock.settled_request
    (fun _ _ => RwLock.mem_readers_request) (fun _ _ => RwLock.writer_request) hfits

theorem Tidy.finish (htidy : state.Tidy)
    (hfits : ∀ state : AuthToken ι, state.Fits call phase) : (state.finish call phase).Tidy :=
  htidy.act rfl rfl (List.Subset.refl _) htidy.exclusive.releaseRead RwLock.settled_releaseRead
    (fun _ hne => RwLock.mem_readers_releaseRead hne)
    (fun _ _ => RwLock.writer_releaseRead) (hfits _)

/-- Where one call writes, no other has a lock or relies on the token. -/
theorem Tidy.replaceToken (htidy : state.Tidy) (hwriter : state.lock.writer = some call)
    (op : AuthOp) :
    ({ state.cancelToken with token := some call }.setCall call (.writing op)).Tidy where
  exclusive := htidy.exclusive
  settled := htidy.settled
  calls other := by
    by_cases heq : other = call
    · rw [heq, calls_setCall_self]
      exact ⟨hwriter, rfl⟩
    · rw [calls_setCall_of_ne heq]
      have hempty : state.lock.readers = [] := htidy.exclusive (hwriter ▸ Option.some_ne_none call)
      refine (htidy.calls other).of_absent (by rw [hempty]; exact List.not_mem_nil) ?_
      rw [hwriter]
      exact fun hsame => heq (Option.some.inj hsame).symm

theorem Tidy.downgrade (htidy : state.Tidy) {op : AuthOp}
    (hwrites : state.Fits call (.writing op)) :
    ({ state with lock := state.lock.downgrade call }.setCall call (.lookingUp op)).Tidy := by
  refine htidy.act rfl rfl (List.Subset.refl _) RwLock.exclusive_downgrade
    RwLock.settled_downgrade (fun other _ hreader => ?_) (fun other hne hwriter => ?_)
    ⟨RwLock.mem_readers_downgrade, hwrites.2⟩
  · rw [htidy.exclusive (hwrites.1 ▸ Option.some_ne_none call)] at hreader
    exact absurd hreader List.not_mem_nil
  · exact absurd (Option.some.inj (hwriter.symm.trans hwrites.1)) hne

/-- **Every step keeps the lock and the token tidy.** -/
theorem Tidy.step (htidy : state.Tidy) (hstep : state.step action = some next) : next.Tidy := by
  cases action with
  | authenticate call =>
      simp only [AuthToken.step] at hstep
      split at hstep
      case h_1 =>
          rw [← Option.some.inj hstep]
          exact htidy.request trivial
      case h_2 => exact nomatch hstep
  | deauthenticate call oidc =>
      simp only [AuthToken.step] at hstep
      split at hstep
      case h_1 =>
          split at hstep
          case isTrue =>
              rw [← Option.some.inj hstep]
              exact htidy.request trivial
          case isFalse =>
              rw [← Option.some.inj hstep]
              exact htidy.setCall trivial
      case h_2 => exact nomatch hstep
  | replaceToken call =>
      simp only [AuthToken.step] at hstep
      split at hstep
      case h_1 op _ =>
          split at hstep
          case isTrue hwriter =>
              rw [← Option.some.inj hstep]
              exact htidy.replaceToken hwriter op
          case isFalse => exact nomatch hstep
      case h_2 => exact nomatch hstep
  | downgrade call =>
      have hfits := htidy.calls call
      simp only [AuthToken.step] at hstep
      split at hstep
      case h_1 op hphase =>
          rw [hphase] at hfits
          rw [← Option.some.inj hstep]
          exact htidy.downgrade hfits
      case h_2 => exact nomatch hstep
  | lookUp call cached =>
      have hfits := htidy.calls call
      simp only [AuthToken.step] at hstep
      split at hstep
      case h_1 hphase =>
          rw [hphase] at hfits
          split at hstep
          case isTrue =>
              rw [← Option.some.inj hstep]
              exact htidy.finish fun _ => trivial
          case isFalse =>
              rw [← Option.some.inj hstep]
              exact htidy.setCall hfits
      case h_2 hphase =>
          rw [hphase] at hfits
          rw [← Option.some.inj hstep]
          exact htidy.setCall hfits
      case h_3 => exact nomatch hstep
  | observeCancel call =>
      simp only [AuthToken.step] at hstep
      split at hstep
      case h_1 =>
          split at hstep
          case isTrue =>
              rw [← Option.some.inj hstep]
              exact htidy.finish fun _ => trivial
          case isFalse => exact nomatch hstep
      case h_2 => exact nomatch hstep
  | answer call ok =>
      have hfits := htidy.calls call
      simp only [AuthToken.step] at hstep
      split at hstep
      case h_1 hphase =>
          rw [hphase] at hfits
          rw [← Option.some.inj hstep]
          exact htidy.setCall hfits
      case h_2 hphase =>
          rw [hphase] at hfits
          rw [← Option.some.inj hstep]
          exact htidy.setCall hfits
      case h_3 =>
          rw [← Option.some.inj hstep]
          exact htidy.finish fun _ => trivial
      case h_4 => exact nomatch hstep
  | store call =>
      simp only [AuthToken.step] at hstep
      split at hstep
      case h_1 =>
          rw [← Option.some.inj hstep]
          exact htidy.finish fun _ => trivial
      case h_2 => exact nomatch hstep
  | cancelWait call =>
      simp only [AuthToken.step] at hstep
      split at hstep
      case h_1 =>
          rw [← Option.some.inj hstep]
          exact htidy.request trivial
      case h_2 => exact nomatch hstep
  | cancel call =>
      simp only [AuthToken.step] at hstep
      split at hstep
      case h_1 =>
          split at hstep
          case isTrue hreader =>
              rw [← Option.some.inj hstep]
              refine htidy.act rfl rfl (List.subset_append_right _ _) htidy.exclusive
                htidy.settled (fun _ _ => id) (fun _ _ => id) ⟨hreader, fun token htoken => ?_⟩
              exact List.mem_append_left _ (Option.mem_toList.mpr htoken)
          case isFalse => exact nomatch hstep
      case h_2 => exact nomatch hstep
  | cancelReturns call =>
      simp only [AuthToken.step] at hstep
      split at hstep
      case h_1 =>
          rw [← Option.some.inj hstep]
          exact htidy.finish fun _ => trivial
      case h_2 => exact nomatch hstep

theorem tidy_of_reachable {allowed : AuthToken ι → TokenAction ι → Prop}
    (hreach : (tokenSystem ι).Reachable allowed state) : state.Tidy :=
  hreach.invariant
    (fun _ hstart => hstart ▸ ⟨fun hwriter => absurd rfl hwriter, trivial, fun _ => trivial⟩)
    fun _ _ _ htidy _ hstep => htidy.step hstep

/-! ## What a step changes -/

/-- What a step can do to the lock. -/
inductive LockMoves (lock : RwLock ι) : TokenAction ι → RwLock ι → Prop
  | stay {action : TokenAction ι} : LockMoves lock action lock
  | write {action : TokenAction ι} (call : ι) : LockMoves lock action (lock.request call .write)
  | read (call : ι) : LockMoves lock (.cancelWait call) (lock.request call .read)
  | release {action : TokenAction ι} (call : ι) : LockMoves lock action (lock.releaseRead call)
  | downgrade {action : TokenAction ι} (call : ι) : LockMoves lock action (lock.downgrade call)

/-- A step moves one call, does one thing to the lock, and undoes no cancellation. -/
theorem step_cases (hstep : state.step action = some next) :
    LockMoves state.lock action next.lock ∧ state.cancelled ⊆ next.cancelled ∧
      ∀ other ≠ action.call, next.calls other = state.calls other := by
  cases action
  all_goals
    simp only [AuthToken.step] at hstep
    repeat' split at hstep
  all_goals first
    | contradiction
    | rw [← Option.some.inj hstep]
      refine ⟨?_, ?_, fun other hne => Function.update_of_ne hne _ _⟩
  all_goals first
    | exact List.Subset.refl _
    | exact List.subset_append_right _ _
    | constructor

/-- A call that has ended does nothing any more. -/
theorem step_of_ended {outcome : AuthOutcome} (hphase : state.calls action.call = .ended outcome) :
    state.step action = none := by
  cases action with
  | _ =>
      simp only [TokenAction.call] at hphase
      simp only [AuthToken.step, hphase]

/-- A call that waits for the user takes an answer, or sees that its token is cancelled. -/
theorem step_of_interacting {op : AuthOp} (hphase : state.calls action.call = .interacting op)
    (hstep : state.step action = some next) :
    (∃ call ok, action = .answer call ok) ∨ next.calls action.call = .ended .cancelled := by
  cases action with
  | answer call ok => exact .inl ⟨call, ok, rfl⟩
  | observeCancel call =>
      simp only [TokenAction.call] at hphase
      simp only [AuthToken.step, hphase] at hstep
      split at hstep
      case isTrue =>
          rw [← Option.some.inj hstep]
          exact .inr calls_setCall_self
      case isFalse => exact nomatch hstep
  | _ =>
      simp only [TokenAction.call] at hphase
      simp only [AuthToken.step, hphase] at hstep
      exact nomatch hstep

/-- A call sees that its token is cancelled, or has ended with `UserCancelled`. -/
def Cancels (state : AuthToken ι) (call : ι) : Prop :=
  state.WaitsForUser call ∧ call ∈ state.cancelled ∨ state.calls call = .ended .cancelled

omit [DecidableEq ι] in
theorem Cancels.endsCancelled (hcancels : state.Cancels call) : state.EndsCancelled call := by
  rcases hcancels with ⟨⟨op, hphase⟩, hcancelled⟩ | hphase
  · rw [EndsCancelled, hphase]
    exact hcancelled
  · rw [EndsCancelled, hphase]

/-- A call whose token is cancelled can end at once. -/
theorem Cancels.observeCancel (hcancels : state.Cancels call) (hwaits : state.WaitsForUser call) :
    state.step (.observeCancel call) = some (state.finish call (.ended .cancelled)) := by
  obtain ⟨op, hphase⟩ := hwaits
  rcases hcancels with ⟨_, hcancelled⟩ | hended
  · simp only [AuthToken.step, hphase, hcancelled, if_true]
  · exact nomatch hphase.symm.trans hended

/-! ## Cancelling while nothing is queued -/

/-- `cancel_wait` is called while nothing is queued, and no answer of the user is taken by a
call whose token is cancelled. -/
def CancelsUnqueued (state : AuthToken ι) : TokenAction ι → Prop
  | .cancelWait _ => ∀ call, ¬ state.Queued call
  | .answer call _ => call ∉ state.cancelled
  | _ => True

/-- A call that is cancelled takes no answer. -/
theorem Cancels.step (hcancels : state.Cancels call) (hallowed : state.CancelsUnqueued action)
    (hstep : state.step action = some next) : next.Cancels call := by
  obtain ⟨_, hsubset, hothers⟩ := step_cases hstep
  by_cases heq : call = action.call
  · subst heq
    rcases hcancels with ⟨⟨op, hphase⟩, hcancelled⟩ | hended
    · obtain ⟨_, ok, rfl⟩ | hends := step_of_interacting hphase hstep
      · exact absurd hcancelled hallowed
      · exact .inr hends
    · exact nomatch (step_of_ended hended).symm.trans hstep
  · rcases hcancels with ⟨⟨op, hphase⟩, hcancelled⟩ | hended
    · exact .inl ⟨⟨op, (hothers call heq).trans hphase⟩, hsubset hcancelled⟩
    · exact .inr ((hothers call heq).trans hended)

theorem Cancels.leads (hcancels : state.Cancels call)
    (hleads : (tokenSystem ι).Leads CancelsUnqueued state next) : next.Cancels call := by
  induction hleads with
  | refl => exact hcancels
  | step _ hallowed hstep ih => exact ih.step hallowed hstep

/-- **What waits for the user when a `cancel_wait` returns is cancelled.** -/
theorem Tidy.cancels_of_cancelReturns (htidy : state.Tidy)
    (hstep : state.step (.cancelReturns call) = some next) (hwaits : state.WaitsForUser other) :
    next.Cancels other := by
  obtain ⟨_, hsubset, hothers⟩ := step_cases hstep
  obtain ⟨op, hphase⟩ := hwaits
  have hcancelling : state.calls call = .cancelling := by
    simp only [AuthToken.step] at hstep
    split at hstep
    case h_1 hcancelling => exact hcancelling
    case h_2 => exact nomatch hstep
  have hne : other ≠ call := by
    intro heq
    rw [heq, hcancelling] at hphase
    exact nomatch hphase
  have hother := htidy.calls other
  rw [hphase] at hother
  have hcall := htidy.calls call
  rw [hcancelling] at hcall
  exact .inl ⟨⟨op, (hothers other hne).trans hphase⟩, hsubset (hcall.2 other hother.2)⟩

theorem LockMoves.readersFirst {lock later : RwLock ι} (hmoves : LockMoves lock action later)
    (hfirst : lock.ReadersFirst)
    (hread : ∀ call, action = .cancelWait call → ∀ entry ∈ lock.queue, entry.2 = .read) :
    later.ReadersFirst := by
  cases hmoves with
  | stay => exact hfirst
  | write call => exact hfirst.requestWrite
  | read call => exact hfirst.requestRead (hread call rfl)
  | release call => exact hfirst.releaseRead
  | downgrade call => exact hfirst.downgrade

omit [DecidableEq ι] in
theorem mode_of_not_queued (hnone : ∀ call, ¬ state.Queued call) :
    ∀ entry ∈ state.lock.queue, entry.2 = .read := by
  rintro ⟨call, mode⟩ hmem
  cases mode with
  | read => rfl
  | write => exact absurd hmem (hnone call)

theorem readersFirst_of_reachable (hreach : (tokenSystem ι).Reachable CancelsUnqueued state) :
    state.lock.ReadersFirst := by
  induction hreach with
  | start hstart =>
      rw [hstart]
      exact List.Pairwise.nil
  | step _ hallowed hstep ih =>
      refine (step_cases hstep).1.readersFirst ih fun call haction => ?_
      rw [haction] at hallowed
      exact mode_of_not_queued hallowed

/-- **A `cancel_wait` that is called while nothing is queued cancels.**  In every run in which
each one is: it is never blocked while a call waits for the user, and what waits for the user
when it returns ends with `UserCancelled`. -/
theorem cancelsAll_unqueued : CancelsAll fun (state : AuthToken ι) => state.CancelsUnqueued where
  unblocked state hreach call other hblocked hwaits := by
    have htidy := tidy_of_reachable hreach
    obtain ⟨op, hphase⟩ := hwaits
    have hother := htidy.calls other
    rw [hphase] at hother
    have hempty := RwLock.readers_eq_nil_of_read_waits htidy.exclusive htidy.settled
      (readersFirst_of_reachable hreach) hblocked.2
    exact List.not_mem_nil (hempty ▸ hother.1)
  running state hreach call next hstep other hwaits later hleads := by
    have hcancels := (tidy_of_reachable hreach).cancels_of_cancelReturns hstep hwaits
    exact (hcancels.leads hleads).endsCancelled
  queued state _ call _ hallowed _ _ _ _ _ other hqueued := absurd hqueued (hallowed other)

/-- **A `cancel_wait` that is called behind a queued call is blocked**, in every reachable
state in which a call waits for the user. -/
theorem blocked_of_queued (hreach : (tokenSystem ι).Reachable (fun _ _ => True) state)
    (hwaits : state.WaitsForUser other) {queued : ι} (hqueued : state.Queued queued)
    (hstep : state.step (.cancelWait call) = some next) :
    next.Blocked call ∧ next.WaitsForUser other := by
  have htidy := tidy_of_reachable hreach
  obtain ⟨op, hphase⟩ := hwaits
  have hothers := (step_cases hstep).2.2 other
  simp only [AuthToken.step] at hstep
  split at hstep
  case h_2 => exact nomatch hstep
  case h_1 hidle =>
      have hne : other ≠ call := by
        intro heq
        rw [heq, hidle] at hphase
        exact nomatch hphase
      refine ⟨?_, op, (hothers hne).trans hphase⟩
      rw [← Option.some.inj hstep]
      exact ⟨calls_setCall_self,
        RwLock.mem_queue_request htidy.settled (List.ne_nil_of_mem hqueued)⟩

/-- The runs in which an authentication waits for the user, one is queued, and then
`cancel_wait` is called. -/
def cancelsBehindQueue : List (TokenAction ℕ) :=
  [.authenticate 0, .replaceToken 0, .downgrade 0, .lookUp 0 false, .authenticate 1, .cancelWait 2]

/-- **`cancel_wait` does not cancel all that is queued.**  Behind a queued call it waits for
the user as well. -/
theorem not_cancelsAll_behindQueue : ¬ CancelsAll fun (_ : AuthToken ℕ) _ => True := by
  intro hcancels
  have hreach : (tokenSystem ℕ).Reachable (fun _ _ => True)
      ((tokenSystem ℕ).after .new cancelsBehindQueue) :=
    System.Reachable.after (.start rfl) (System.runsWithin_true _ _)
  refine hcancels.unblocked _ hreach 2 0 ⟨rfl, ?_⟩ ⟨.authenticate, rfl⟩
  exact List.mem_of_mem_tail (List.mem_singleton.mpr rfl)

example :
    ((tokenSystem ℕ).after .new [.authenticate 0, .replaceToken 0, .downgrade 0, .lookUp 0 false,
      .cancelWait 1, .authenticate 2, .cancel 1, .cancelReturns 1, .observeCancel 0]).calls 0 =
        .ended .cancelled := rfl

end AuthToken

end Backstitch
