/-
# Requested checkouts

An iteration of the sync loop commits, takes the requested checkout, compares the files
with its goal, waits for the main thread and then checks the goal out.  Other tasks go on
meanwhile: they request checkouts, change the flag for the editor, move the checked-out
ref, or bring in remote changes.  What the files hold matters here only as far as it
decides whether there is anything to commit and whether the goal can be read.
-/

import Backstitch.Branches.ForkPoints

namespace Backstitch

universe u v

/-- Where an iteration of the sync loop stands.  `taken` is the request that it took. -/
inductive SyncPhase (κ : Type u) (χ : Type v)
  | idle
  | committing (old : HistoryRef κ χ)
  /-- `sync_correct_ref` looks at the flag for the editor next. -/
  | starting
  /-- `get_ref_for_sync` is next. -/
  | choosing
  /-- The checked-out ref is read next. -/
  | chosen (taken : Option κ) (goal : HistoryRef κ χ)
  /-- `checkout_ref` is next. -/
  | comparing (taken : Option κ) (goal : HistoryRef κ χ) (checkedOut : Option (HistoryRef κ χ))
  /-- Whether there are proposed changes, possibly none, is known. -/
  | proposed (taken : Option κ) (goal : HistoryRef κ χ) (checkedOut : Option (HistoryRef κ χ))
      (changes : Bool)
  /-- The main thread is waited for. -/
  | waiting (taken : Option κ) (goal : HistoryRef κ χ) (checkedOut : Option (HistoryRef κ χ))
      (changes : Bool)
  deriving DecidableEq

def SyncPhase.taken {κ : Type u} {χ : Type v} : SyncPhase κ χ → Option κ
  | .chosen taken _ | .comparing taken _ _ | .proposed taken _ _ _ | .waiting taken _ _ _ => taken
  | _ => none

structure CheckoutState (κ : Type u) (χ : Type v) where
  requestedCheckout : Option κ
  checkedOutRef : Option (HistoryRef κ χ)
  safeToUpdateEditor : Bool
  cancelled : Bool
  /-- The heads of the shadow documents that are there. -/
  shadowHeads : κ → Option (Finset χ)
  mainBranch : Option κ
  /-- Some files wait to be normalized. -/
  pendingNormalized : Bool
  phase : SyncPhase κ χ

inductive CheckoutAction (κ : Type u) (χ : Type v)
  | requestCheckout (branch : κ)
  | setSafeToUpdateEditor (safe : Bool)
  | cancel
  /-- Another task moves the checked-out ref. -/
  | moveRef (ref : HistoryRef κ χ)
  /-- A shadow document gets other heads, or is dropped. -/
  | changeShadow (branch : κ) (heads : Option (Finset χ))
  | loadMetadata (mainBranch : κ)
  | sync
  /-- The commit of an iteration: the new heads if anything was committed, and whether
  files now wait to be normalized. -/
  | commit (newHeads : Option (Finset χ)) (normalizes : Bool)
  | checkSafe
  | getRefForSync
  | readCheckedOut
  /-- `checkout_ref`, which may fail to read the goal. -/
  | checkoutRef (readable : Bool)
  | decide
  | giveUp
  /-- The main thread is blocked and the lock on the checked-out ref is taken.  It is kept
  until the iteration is done; `resolved` says whether the normalized files were. -/
  | finish (resolved : Bool)
  deriving DecidableEq

variable {κ : Type u} {χ : Type v}

namespace CheckoutState

variable (state : CheckoutState κ χ)

def latestRefOnBranch (branch : κ) : Option (HistoryRef κ χ) :=
  (state.shadowHeads branch).map (HistoryRef.mk branch)

/-- `get_ref_for_sync`: the goal, and the request that is taken. -/
def getRefForSync : Option (Option κ × HistoryRef κ χ) :=
  match state.requestedCheckout.bind state.latestRefOnBranch with
  | some latest => some (state.requestedCheckout, latest)
  | none =>
      match state.checkedOutRef.bind fun ref => state.latestRefOnBranch ref.branch with
      | some latest => some (none, latest)
      | none => (state.mainBranch.bind state.latestRefOnBranch).map (Prod.mk none)

/-- The checked-out ref is on this branch. -/
def OnBranch (branch : κ) : Prop :=
  ∃ ref, state.checkedOutRef = some ref ∧ ref.branch = branch

def step [DecidableEq κ] [DecidableEq χ] : CheckoutAction κ χ → Option (CheckoutState κ χ)
  | .requestCheckout branch => some { state with requestedCheckout := some branch }
  | .setSafeToUpdateEditor safe => some { state with safeToUpdateEditor := safe }
  | .cancel => some { state with cancelled := true }
  | .moveRef ref => some { state with checkedOutRef := some ref }
  | .changeShadow branch heads =>
      some { state with shadowHeads := Function.update state.shadowHeads branch heads }
  | .loadMetadata mainBranch => some { state with mainBranch := some mainBranch }
  | .sync =>
      if state.phase = .idle then
        match state.checkedOutRef with
        | some old => some { state with phase := .committing old }
        | none => some { state with phase := .starting }
      else none
  | .commit newHeads normalizes =>
      match state.phase with
      | .committing old =>
          match newHeads with
          | some heads => some { state with
              checkedOutRef := some ⟨old.branch, heads⟩
              pendingNormalized := normalizes
              phase := .starting }
          | none => some { state with phase := .starting }
      | _ => none
  | .checkSafe =>
      if state.phase = .starting then
        some { state with phase := if state.safeToUpdateEditor then .choosing else .idle }
      else none
  | .getRefForSync =>
      if state.phase = .choosing then
        match state.getRefForSync with
        | some (taken, goal) => some { state with
            requestedCheckout := if taken.isSome then none else state.requestedCheckout
            phase := .chosen taken goal }
        | none => some { state with phase := .idle }
      else none
  | .readCheckedOut =>
      match state.phase with
      | .chosen taken goal =>
          some { state with phase := .comparing taken goal state.checkedOutRef }
      | _ => none
  | .checkoutRef readable =>
      match state.phase with
      | .comparing taken goal checkedOut => some { state with
          phase := .proposed taken goal checkedOut (checkedOut ≠ some goal && readable) }
      | _ => none
  | .decide =>
      match state.phase with
      | .proposed taken goal checkedOut changes => some { state with
          phase := if !changes && !state.pendingNormalized then .idle
            else .waiting taken goal checkedOut changes }
      | _ => none
  | .giveUp =>
      match state.phase with
      | .waiting _ _ _ _ =>
          if state.cancelled then some { state with phase := .idle } else none
      | _ => none
  | .finish resolved =>
      match state.phase with
      | .waiting _ goal checkedOut changes =>
          if state.checkedOutRef ≠ checkedOut then some { state with phase := .idle }
          else if !state.safeToUpdateEditor then some { state with phase := .idle }
          else some { state with
            checkedOutRef := if changes then some goal else state.checkedOutRef
            pendingNormalized := state.pendingNormalized && !resolved
            phase := .idle }
      | _ => none

/-- Nothing is requested, checked out or going on. -/
def Fresh : Prop :=
  state.requestedCheckout = none ∧ state.checkedOutRef = none ∧ state.phase = .idle

/-- An iteration that took a request for a branch goes through: once it has read the
checked-out ref, no other task moves that off the branch, and unless the ref is on the branch already, the
goal can be read, the driver is not cancelled while it waits, and the editor is safe to
update when that is checked again. -/
def GoesThrough (action : CheckoutAction κ χ) : Prop :=
  ∀ branch, state.phase.taken = some branch →
    match action with
    | .moveRef ref => (∃ goal, state.phase = .chosen (some branch) goal) ∨ ref.branch = branch
    | .checkoutRef readable => state.OnBranch branch ∨ readable = true
    | .giveUp => state.OnBranch branch
    | .finish _ => state.OnBranch branch ∨ state.safeToUpdateEditor = true
    | _ => True

/-- What is known while an iteration that took a request is going on. -/
def TakenKept : SyncPhase κ χ → Prop
  | .chosen (some branch) goal => goal.branch = branch
  | .comparing (some branch) goal checkedOut =>
      goal.branch = branch ∧ (state.checkedOutRef = checkedOut ∨ state.OnBranch branch)
  | .proposed (some branch) goal checkedOut changes
  | .waiting (some branch) goal checkedOut changes =>
      goal.branch = branch ∧ (state.checkedOutRef = checkedOut ∨ state.OnBranch branch) ∧
        (changes = true ∨ state.OnBranch branch)
  | _ => True

/-- A step keeps a request pending until a newer one replaces it or an iteration takes
it, and an iteration that took one ends with its branch checked out. -/
def KeepsRequests (action : CheckoutAction κ χ) (next : CheckoutState κ χ) : Prop :=
  (∀ branch, state.requestedCheckout = some branch →
    next.requestedCheckout = some branch ∨
    (∃ newer, action = .requestCheckout newer ∧ next.requestedCheckout = some newer) ∨
    next.requestedCheckout = none ∧ next.phase.taken = some branch) ∧
  ∀ branch, state.phase.taken = some branch →
    next.phase.taken = some branch ∨ next.phase = .idle ∧ next.OnBranch branch

end CheckoutState

/-- Tasks around one sync loop. -/
def checkoutSystem [DecidableEq κ] [DecidableEq χ] :
    System (CheckoutState κ χ) (CheckoutAction κ χ) where
  start := CheckoutState.Fresh
  step state := state.step

namespace CheckoutState

variable {state next : CheckoutState κ χ} {action : CheckoutAction κ χ}

/-- The goal is on the branch of the request that is taken. -/
theorem branch_of_getRefForSync {branch : κ} {goal : HistoryRef κ χ}
    (hgoal : state.getRefForSync = some (some branch, goal)) :
    goal.branch = branch ∧ state.requestedCheckout = some branch := by
  rw [getRefForSync] at hgoal
  split at hgoal
  · rename_i latest hlatest
    obtain ⟨hrequested, rfl⟩ : state.requestedCheckout = some branch ∧ latest = goal := by
      simpa using hgoal
    rw [hrequested] at hlatest
    obtain ⟨heads, -, rfl⟩ := Option.map_eq_some_iff.mp hlatest
    exact ⟨rfl, hrequested⟩
  · split at hgoal
    · simp at hgoal
    · obtain ⟨latest, -, heq⟩ := Option.map_eq_some_iff.mp hgoal
      nomatch heq

/-- Steps of other tasks leave the iteration where it is, and its branch checked out. -/
theorem TakenKept.of_phase_eq {phase : SyncPhase κ χ} (hkept : state.TakenKept phase)
    (href : ∀ branch, phase.taken = some branch →
      (∃ goal, phase = .chosen (some branch) goal) ∨
        next.checkedOutRef = state.checkedOutRef ∨ next.OnBranch branch) :
    next.TakenKept phase := by
  have hon : ∀ branch, phase.taken = some branch →
      (¬ ∃ goal, phase = .chosen (some branch) goal) → state.OnBranch branch →
        next.OnBranch branch := by
    intro branch htaken hread ⟨ref, hsome, hbranch⟩
    rcases (href branch htaken).resolve_left hread with heq | hon
    · exact ⟨ref, heq.trans hsome, hbranch⟩
    · exact hon
  have hgoes : ∀ branch, phase.taken = some branch →
      (¬ ∃ goal, phase = .chosen (some branch) goal) → ∀ checkedOut,
      state.checkedOutRef = checkedOut ∨ state.OnBranch branch →
        next.checkedOutRef = checkedOut ∨ next.OnBranch branch := by
    intro branch htaken hread checkedOut hor
    rcases (href branch htaken).resolve_left hread with heq | hmoved
    · exact hor.imp heq.trans (hon branch htaken hread)
    · exact .inr hmoved
  match phase, hkept with
  | .chosen (some branch) goal, hkept => exact hkept
  | .comparing (some branch) goal checkedOut, hkept =>
      exact ⟨hkept.1, hgoes branch rfl nofun checkedOut hkept.2⟩
  | .proposed (some branch) goal checkedOut changes, hkept =>
      exact ⟨hkept.1, hgoes branch rfl nofun checkedOut hkept.2.1,
        hkept.2.2.imp_right (hon branch rfl nofun)⟩
  | .waiting (some branch) goal checkedOut changes, hkept =>
      exact ⟨hkept.1, hgoes branch rfl nofun checkedOut hkept.2.1,
        hkept.2.2.imp_right (hon branch rfl nofun)⟩
  | .idle, _ | .committing _, _ | .starting, _ | .choosing, _ | .chosen none _, _
  | .comparing none _ _, _ | .proposed none _ _ _, _ | .waiting none _ _ _, _ => trivial

/-- A step that leaves requests and the iteration alone keeps requests. -/
theorem keepsRequests_of_eq (hrequested : next.requestedCheckout = state.requestedCheckout)
    (hphase : next.phase = state.phase) : state.KeepsRequests action next :=
  ⟨fun _ h => .inl (hrequested.trans h), fun _ h => .inl (by rw [hphase, h])⟩

/-- So does one of the iteration's own steps that goes on with what was taken. -/
theorem keepsRequests_of_taken_eq (hrequested : next.requestedCheckout = state.requestedCheckout)
    (htaken : next.phase.taken = state.phase.taken) : state.KeepsRequests action next :=
  ⟨fun _ h => .inl (hrequested.trans h), fun _ h => .inl (htaken.trans h)⟩

/-- **What is known of an iteration is kept, and no request is forgotten.** -/
theorem TakenKept.step [DecidableEq κ] [DecidableEq χ] (hkept : state.TakenKept state.phase)
    (hallowed : state.GoesThrough action) (hstep : state.step action = some next) :
    next.TakenKept next.phase ∧ state.KeepsRequests action next := by
  cases action with
  | requestCheckout branch =>
      cases hstep
      refine ⟨hkept.of_phase_eq fun _ _ => .inr (.inl rfl),
        fun _ _ => .inr (.inl ⟨branch, rfl, rfl⟩), ?_⟩
      exact fun _ h => .inl h
  | setSafeToUpdateEditor safe =>
      cases hstep
      exact ⟨hkept.of_phase_eq fun _ _ => .inr (.inl rfl), keepsRequests_of_eq rfl rfl⟩
  | cancel =>
      cases hstep
      exact ⟨hkept.of_phase_eq fun _ _ => .inr (.inl rfl), keepsRequests_of_eq rfl rfl⟩
  | moveRef ref =>
      cases hstep
      refine ⟨hkept.of_phase_eq fun branch htaken => ?_, keepsRequests_of_eq rfl rfl⟩
      exact (hallowed branch htaken).imp_right fun hbranch => .inr ⟨ref, rfl, hbranch⟩
  | changeShadow branch heads =>
      cases hstep
      exact ⟨hkept.of_phase_eq fun _ _ => .inr (.inl rfl), keepsRequests_of_eq rfl rfl⟩
  | loadMetadata mainBranch =>
      cases hstep
      exact ⟨hkept.of_phase_eq fun _ _ => .inr (.inl rfl), keepsRequests_of_eq rfl rfl⟩
  | sync =>
      rw [CheckoutState.step] at hstep
      split at hstep
      · rename_i hidle
        split at hstep <;> cases hstep <;>
          exact ⟨trivial, keepsRequests_of_taken_eq rfl (by rw [hidle]; rfl)⟩
      · nomatch hstep
  | commit newHeads normalizes =>
      rw [CheckoutState.step] at hstep
      split at hstep
      · rename_i old hphase
        split at hstep <;> cases hstep <;>
          exact ⟨trivial, keepsRequests_of_taken_eq rfl (by rw [hphase]; rfl)⟩
      · nomatch hstep
  | checkSafe =>
      rw [CheckoutState.step] at hstep
      split at hstep
      · rename_i hstarting
        cases hstep
        cases state.safeToUpdateEditor <;>
          exact ⟨trivial, keepsRequests_of_taken_eq rfl (by rw [hstarting]; rfl)⟩
      · nomatch hstep
  | getRefForSync =>
      rw [CheckoutState.step] at hstep
      split at hstep
      · rename_i hchoosing
        split at hstep <;> cases hstep
        · rename_i taken goal hgoal
          cases taken with
          | some branch =>
              obtain ⟨hbranch, hrequested⟩ := branch_of_getRefForSync hgoal
              refine ⟨hbranch, fun other hother => .inr (.inr ⟨rfl, ?_⟩), fun other hother => ?_⟩
              · exact hrequested.symm.trans hother
              · rw [hchoosing] at hother
                nomatch hother
          | none => exact ⟨trivial, keepsRequests_of_taken_eq rfl (by rw [hchoosing]; rfl)⟩
        · exact ⟨trivial, keepsRequests_of_taken_eq rfl (by rw [hchoosing]; rfl)⟩
      · nomatch hstep
  | readCheckedOut =>
      rw [CheckoutState.step] at hstep
      split at hstep
      · rename_i taken goal hphase
        cases hstep
        rw [hphase] at hkept
        refine ⟨?_, keepsRequests_of_taken_eq rfl (by rw [hphase]; rfl)⟩
        cases taken with
        | some branch => exact ⟨hkept, .inl rfl⟩
        | none => trivial
      · nomatch hstep
  | checkoutRef readable =>
      rw [CheckoutState.step] at hstep
      split at hstep
      · rename_i taken goal checkedOut hphase
        cases hstep
        rw [hphase] at hkept
        refine ⟨?_, keepsRequests_of_taken_eq rfl (by rw [hphase]; rfl)⟩
        cases taken with
        | none => trivial
        | some branch =>
            obtain ⟨hbranch, hor⟩ := hkept
            refine ⟨hbranch, hor, ?_⟩
            rcases hallowed branch (by rw [hphase]; rfl) with hon | rfl
            · exact .inr hon
            · by_cases hgoal : checkedOut = some goal
              · exact .inr (hor.elim (fun heq => ⟨goal, heq.trans hgoal, hbranch⟩) id)
              · exact .inl (by simp [hgoal])
      · nomatch hstep
  | decide =>
      rw [CheckoutState.step] at hstep
      split at hstep
      · rename_i taken goal checkedOut changes hphase
        cases hstep
        rw [hphase] at hkept
        by_cases hends : (!changes && !state.pendingNormalized) = true
        · simp only [hends, if_true]
          refine ⟨trivial, fun _ h => .inl h, fun branch htaken => .inr ⟨rfl, ?_⟩⟩
          rw [hphase] at htaken
          obtain rfl : taken = some branch := htaken
          refine hkept.2.2.resolve_left fun hchanges => ?_
          rw [hchanges] at hends
          nomatch hends
        · simp only [hends, Bool.false_eq_true, if_false]
          refine ⟨?_, keepsRequests_of_taken_eq rfl (by rw [hphase]; rfl)⟩
          cases taken with
          | some branch => exact hkept
          | none => trivial
      · nomatch hstep
  | giveUp =>
      rw [CheckoutState.step] at hstep
      split at hstep
      · rename_i taken goal checkedOut changes hphase
        split at hstep <;> cases hstep
        refine ⟨trivial, fun _ h => .inl h, fun branch htaken => .inr ⟨rfl, ?_⟩⟩
        exact hallowed branch htaken
      · nomatch hstep
  | finish resolved =>
      rw [CheckoutState.step] at hstep
      split at hstep
      · rename_i taken goal checkedOut changes hphase
        rw [hphase] at hkept
        have hends : ∀ branch, state.phase.taken = some branch →
            goal.branch = branch ∧
              (state.checkedOutRef = checkedOut ∨ state.OnBranch branch) ∧
              (changes = true ∨ state.OnBranch branch) := by
          intro branch htaken
          rw [hphase] at htaken
          obtain rfl : taken = some branch := htaken
          exact hkept
        split at hstep
        · -- the ref has been moved, and that onto the branch
          rename_i hmoved
          cases hstep
          refine ⟨trivial, fun _ h => .inl h, fun branch htaken => .inr ⟨rfl, ?_⟩⟩
          exact (hends branch htaken).2.1.resolve_left hmoved
        · split at hstep
          · rename_i hunsafe
            cases hstep
            refine ⟨trivial, fun _ h => .inl h, fun branch htaken => .inr ⟨rfl, ?_⟩⟩
            refine (hallowed branch htaken).resolve_right fun hsafe => ?_
            rw [hsafe] at hunsafe
            nomatch hunsafe
          · cases hstep
            refine ⟨trivial, fun _ h => .inl h, fun branch htaken => .inr ⟨rfl, ?_⟩⟩
            obtain ⟨hbranch, -, hor⟩ := hends branch htaken
            cases changes with
            | true => exact ⟨goal, rfl, hbranch⟩
            | false => exact hor.resolve_left nofun
      · nomatch hstep

end CheckoutState

section Runs

variable [DecidableEq κ] [DecidableEq χ] {state next : CheckoutState κ χ}
  {action : CheckoutAction κ χ}

theorem CheckoutState.takenKept_of_reachable
    (hreach : checkoutSystem.Reachable CheckoutState.GoesThrough state) :
    state.TakenKept state.phase := by
  have hstart : ∀ state : CheckoutState κ χ, state.Fresh → state.TakenKept state.phase := by
    intro state ⟨_, _, hidle⟩
    rw [hidle]
    trivial
  induction hreach with
  | start hfresh => exact hstart _ hfresh
  | step _ hallowed hstep ih => exact (ih.step hallowed hstep).1

/-- **In runs in which iterations with a request go through, no step forgets a request.** -/
theorem CheckoutState.keepsRequests_of_reachable
    (hreach : checkoutSystem.Reachable CheckoutState.GoesThrough state)
    (hallowed : state.GoesThrough action) (hstep : checkoutSystem.step state action = some next) :
    state.KeepsRequests action next :=
  ((CheckoutState.takenKept_of_reachable hreach).step hallowed hstep).2

end Runs

/-- Two branches that are loaded, the first one checked out. -/
def twoLoaded : CheckoutState ℕ ℕ where
  requestedCheckout := none
  checkedOutRef := none
  safeToUpdateEditor := false
  cancelled := false
  shadowHeads branch := if branch < 2 then some {branch} else none
  mainBranch := some 0
  pendingNormalized := false
  phase := .idle

theorem twoLoaded_start : checkoutSystem.start twoLoaded :=
  ⟨rfl, rfl, rfl⟩

/-- The main branch is checked out, and then branch 1 is requested and taken. -/
def requestTaken : List (CheckoutAction ℕ ℕ) :=
  [.setSafeToUpdateEditor true, .sync, .checkSafe, .getRefForSync, .readCheckedOut,
    .checkoutRef true, .decide, .finish true, .requestCheckout 1, .sync, .commit none false,
    .checkSafe, .getRefForSync, .readCheckedOut, .checkoutRef true, .decide]

/-- The request is taken and its branch is checked out. -/
theorem CheckoutState.keepsRequests_requestTaken :
    let state := checkoutSystem.after twoLoaded requestTaken
    let next := checkoutSystem.after twoLoaded (requestTaken ++ [.finish true])
    state.phase.taken = some 1 ∧ next.checkedOutRef = some ⟨1, {1}⟩ ∧
      state.KeepsRequests (.finish true) next := by
  intro state next
  have hwithin : checkoutSystem.RunsWithin CheckoutState.GoesThrough twoLoaded requestTaken := by
    refine .cons (fun _ _ => trivial) rfl (.cons (fun _ _ => trivial) rfl
      (.cons (fun _ _ => trivial) rfl (.cons (fun _ _ => trivial) rfl
      (.cons (fun _ _ => trivial) rfl (.cons (fun _ _ => .inr rfl) rfl
      (.cons (fun _ _ => trivial) rfl (.cons (fun _ _ => .inr rfl) rfl
      (.cons (fun _ _ => trivial) rfl (.cons (fun _ _ => trivial) rfl
      (.cons (fun _ _ => trivial) rfl (.cons (fun _ _ => trivial) rfl
      (.cons (fun _ _ => trivial) rfl (.cons (fun _ _ => trivial) rfl
      (.cons (fun _ _ => .inr rfl) rfl (.cons (fun _ _ => trivial) rfl trivial)))))))))))))))
  have hreach : checkoutSystem.Reachable CheckoutState.GoesThrough state :=
    (System.Reachable.start twoLoaded_start).after hwithin
  exact ⟨rfl, rfl, keepsRequests_of_reachable hreach (fun _ _ => .inr rfl) rfl⟩

/-- The editor becomes unsafe while the main thread is waited for: the iteration gives up,
and the request is gone. -/
theorem not_keepsRequests :
    ¬ ∀ (state next : CheckoutState ℕ ℕ) (action : CheckoutAction ℕ ℕ),
      checkoutSystem.Reachable (fun _ _ => True) state →
      checkoutSystem.step state action = some next → state.KeepsRequests action next := by
  intro hall
  have hreach : checkoutSystem.Reachable (fun _ _ => True)
      (checkoutSystem.after twoLoaded (requestTaken ++ [.setSafeToUpdateEditor false])) :=
    (System.Reachable.start twoLoaded_start).after (System.runsWithin_true _ _)
  have hkeeps := hall _ _ (.finish true) hreach rfl
  rcases hkeeps.2 1 rfl with htaken | ⟨-, ref, href, hbranch⟩
  · nomatch htaken
  · obtain rfl : (⟨0, {0}⟩ : HistoryRef ℕ ℕ) = ref := Option.some.inj href
    nomatch hbranch

end Backstitch
