/-
# The block of the main thread

A worker that calls `wait` registers and then waits at a semaphore; `checkpoint` takes the
number of registered workers, lets as many through and waits until as many guards have been
dropped.  A wait that is cancelled leaves its place at the semaphore, but stays registered.
-/

import Backstitch.Library.Semaphore
import Backstitch.Library.System
import Mathlib.Algebra.Group.Nat.Defs

namespace Backstitch

universe u

variable {κ : Type u}

/-- Where the main thread stands. -/
inductive MainPhase
  | outside
  /-- The number of registered workers is taken, the gate is not open yet. -/
  | opening (count : ℕ)
  /-- The gate is open, and permits of `done` are waited for. -/
  | awaiting (count : ℕ)
  deriving DecidableEq

/-- A `MainThreadBlock` with the calls of `wait` and the guards. -/
structure MainThreadBlock (κ : Type u) where
  registered : ℕ
  start : Semaphore κ
  /-- The permits of `done`. -/
  done : ℕ
  /-- The calls that have registered and not come to the semaphore yet. -/
  registering : Multiset κ
  /-- The calls whose guard has not been dropped yet. -/
  guards : Multiset κ
  main : MainPhase

inductive BlockAction (κ : Type u)
  /-- A call of `wait` registers. -/
  | register (call : κ)
  /-- It takes a permit, or waits for one. -/
  | acquire (call : κ)
  /-- It goes on with a permit that it was given. -/
  | resume (call : κ)
  /-- It is dropped while it waits for a permit. -/
  | cancel (call : κ)
  /-- It is dropped after it was given a permit, before it goes on. -/
  | cancelGranted (call : κ)
  | dropGuard (call : κ)
  /-- `checkpoint` takes the number of registered workers. -/
  | swap
  | addPermits
  /-- The permits of `done` are there, and `checkpoint` returns. -/
  | finish
  deriving DecidableEq

namespace MainThreadBlock

variable [DecidableEq κ] (block : MainThreadBlock κ)

/-- The counter of registered workers has 32 bits. -/
def register (call : κ) : MainThreadBlock κ :=
  { block with
    registered := (block.registered + 1) % 2 ^ 32
    registering := call ::ₘ block.registering }

def acquire (call : κ) : MainThreadBlock κ :=
  match block.start.tryAcquire with
  | some start =>
      { block with
        start, registering := block.registering.erase call, guards := call ::ₘ block.guards }
  | none =>
      { block with
        start := block.start.enqueue call, registering := block.registering.erase call }

def step : BlockAction κ → Option (MainThreadBlock κ)
  | .register call => some (block.register call)
  | .acquire call => if call ∈ block.registering then some (block.acquire call) else none
  | .resume call =>
      if call ∈ block.start.granted then
        some { block with
          start := block.start.takeGranted call, guards := call ::ₘ block.guards }
      else none
  | .cancel call =>
      if call ∈ block.start.waiters then some { block with start := block.start.leave call }
      else none
  | .cancelGranted call =>
      if call ∈ block.start.granted then some { block with start := block.start.giveBack call }
      else none
  | .dropGuard call =>
      if call ∈ block.guards then
        some { block with guards := block.guards.erase call, done := block.done + 1 }
      else none
  | .swap =>
      match block.main with
      | .outside => some { block with registered := 0, main := .opening block.registered }
      | _ => none
  | .addPermits =>
      match block.main with
      | .opening count =>
          some { block with start := block.start.addPermits count, main := .awaiting count }
      | _ => none
  | .finish =>
      match block.main with
      | .awaiting count =>
          if count ≤ block.done then
            some { block with done := block.done - count, main := .outside }
          else none
      | _ => none

/-- `new`. -/
def new : MainThreadBlock κ := ⟨0, .empty, 0, 0, 0, .outside⟩

end MainThreadBlock

/-- A block, used by any number of calls and by one main thread. -/
def blockSystem (κ : Type u) [DecidableEq κ] : System (MainThreadBlock κ) (BlockAction κ) where
  start block := block = .new
  step := MainThreadBlock.step

namespace MainThreadBlock

variable {block next : MainThreadBlock κ}

/-- The main thread is inside a checkpoint. -/
def Inside (block : MainThreadBlock κ) : Prop := block.main ≠ .outside

/-- How many permits of `done` the checkpoint needs. -/
def expected (block : MainThreadBlock κ) : ℕ :=
  match block.main with
  | .outside => 0
  | .opening count | .awaiting count => count

/-- A guard exists only inside a checkpoint, and a checkpoint returns only without guards. -/
def Excludes [DecidableEq κ] (block : MainThreadBlock κ) : Prop :=
  (block.guards ≠ 0 → block.Inside) ∧ ∀ next, block.step .finish = some next → block.guards = 0

/-- Where all guards are dropped and nobody waits, a checkpoint has all permits it needs. -/
def Releases (block : MainThreadBlock κ) : Prop :=
  block.Inside → block.guards = 0 → block.registering = 0 → block.start.pending = 0 →
    block.expected ≤ block.done

/-! ## Permits -/

/-- What the main thread has let through: nothing before the gate is open, and then as many
as it took, each of them still a permit, a guard or done. -/
def Balanced (block : MainThreadBlock κ) : Prop :=
  match block.main with
  | .outside | .opening _ =>
      block.start.available = 0 ∧ block.guards = 0 ∧ block.done = 0
  | .awaiting count =>
      block.start.available + block.guards.card + block.done = count

variable [DecidableEq κ]

/-- A call that comes to the semaphore takes a permit and becomes a guard, or waits. -/
theorem acquire_cases (call : κ) :
    (∃ taken, block.start.tryAcquire = some taken ∧ block.acquire call =
      { block with
        start := taken, registering := block.registering.erase call,
        guards := call ::ₘ block.guards }) ∨
    block.acquire call =
      { block with
        start := block.start.enqueue call, registering := block.registering.erase call } := by
  rw [acquire]
  cases htaken : block.start.tryAcquire with
  | some taken => exact .inl ⟨taken, rfl, rfl⟩
  | none => exact .inr rfl

omit [DecidableEq κ] in
/-- Permits are moved, not made or lost. -/
theorem Balanced.of_moved (hbalanced : block.Balanced) (hmain : next.main = block.main)
    (hmoved : next.start.available + next.guards.card + next.done =
      block.start.available + block.guards.card + block.done) : next.Balanced := by
  rw [Balanced] at hbalanced ⊢
  rw [hmain]
  cases hphase : block.main with
  | awaiting count =>
      rw [hphase] at hbalanced
      exact hmoved.trans hbalanced
  | outside | opening count =>
      rw [hphase] at hbalanced
      obtain ⟨havailable, hguards, hdone⟩ := hbalanced
      rw [havailable, hguards, hdone, Multiset.card_zero] at hmoved
      exact ⟨by omega, Multiset.card_eq_zero.mp (by omega), by omega⟩

/-- **Every step keeps the permits balanced, cancelled calls included.** -/
theorem Balanced.step (hbalanced : block.Balanced) {action : BlockAction κ}
    (hstep : block.step action = some next) : next.Balanced := by
  cases action with
  | register call =>
      cases hstep
      exact hbalanced.of_moved rfl rfl
  | acquire call =>
      obtain ⟨hcall, heq⟩ := Option.ite_none_right_eq_some.mp hstep
      cases heq
      rcases acquire_cases call with ⟨taken, htaken, heq⟩ | heq
      · have hcount := (block.start.of_tryAcquire htaken).1
        rw [heq]
        refine hbalanced.of_moved rfl ?_
        simp only [Multiset.card_cons]
        omega
      · rw [heq]
        exact hbalanced.of_moved rfl rfl
  | resume call =>
      obtain ⟨hcall, heq⟩ := Option.ite_none_right_eq_some.mp hstep
      cases heq
      have hcount := (block.start.of_takeGranted hcall).1
      refine hbalanced.of_moved rfl ?_
      simp only [Multiset.card_cons]
      omega
  | cancel call =>
      obtain ⟨-, heq⟩ := Option.ite_none_right_eq_some.mp hstep
      cases heq
      exact hbalanced.of_moved rfl rfl
  | cancelGranted call =>
      obtain ⟨hcall, heq⟩ := Option.ite_none_right_eq_some.mp hstep
      cases heq
      refine hbalanced.of_moved rfl ?_
      simp only [block.start.available_giveBack hcall]
  | dropGuard call =>
      obtain ⟨hcall, heq⟩ := Option.ite_none_right_eq_some.mp hstep
      cases heq
      have hcount := Multiset.card_erase_add_one hcall
      refine hbalanced.of_moved rfl ?_
      simp only
      omega
  | swap =>
      rw [MainThreadBlock.step] at hstep
      split at hstep
      · rename_i hmain
        cases hstep
        rwa [Balanced, hmain] at hbalanced
      · nomatch hstep
  | addPermits =>
      rw [MainThreadBlock.step] at hstep
      split at hstep
      · rename_i count hmain
        cases hstep
        rw [Balanced, hmain] at hbalanced
        obtain ⟨havailable, hguards, hdone⟩ := hbalanced
        simp [Balanced, havailable, hguards, hdone]
      · nomatch hstep
  | finish =>
      rw [MainThreadBlock.step] at hstep
      split at hstep
      · rename_i count hmain
        obtain ⟨hdone, heq⟩ := Option.ite_none_right_eq_some.mp hstep
        cases heq
        rw [Balanced, hmain] at hbalanced
        refine ⟨?_, Multiset.card_eq_zero.mp ?_, ?_⟩ <;> simp only <;> omega
      · nomatch hstep

/-- Balanced permits exclude. -/
theorem Balanced.excludes (hbalanced : block.Balanced) : block.Excludes := by
  refine ⟨fun hguards hmain => ?_, fun next hreturn => ?_⟩
  · rw [Balanced, hmain] at hbalanced
    exact hguards hbalanced.2.1
  · rw [MainThreadBlock.step] at hreturn
    split at hreturn
    · rename_i count hmain
      obtain ⟨hdone, -⟩ := Option.ite_none_right_eq_some.mp hreturn
      rw [Balanced, hmain] at hbalanced
      exact Multiset.card_eq_zero.mp (by omega)
    · nomatch hreturn

/-! ## Registrations -/

/-- The calls that have not dropped a guard yet. -/
def live (block : MainThreadBlock κ) : ℕ :=
  block.registering.card + block.start.pending + block.guards.card

/-- Every registration, and every permit that is still expected, belongs to a call that is
there. -/
def Registered (block : MainThreadBlock κ) : Prop :=
  block.registered + (block.expected - block.done) ≤ block.live

/-- A call that registered is not dropped before it has a guard. -/
def KeepsWaiting : BlockAction κ → Prop
  | .cancel _ | .cancelGranted _ => False
  | _ => True

omit [DecidableEq κ] in
/-- Where a guard is, the checkpoint expects the permits, the guards and what is done. -/
theorem Balanced.expected_eq (hbalanced : block.Balanced) {call : κ} (hcall : call ∈ block.guards) :
    block.expected = block.start.available + block.guards.card + block.done := by
  rw [Balanced] at hbalanced
  rw [expected]
  cases hmain : block.main with
  | awaiting count =>
      rw [hmain] at hbalanced
      exact hbalanced.symm
  | outside | opening count =>
      rw [hmain] at hbalanced
      rw [hbalanced.2.1] at hcall
      exact absurd hcall (Multiset.notMem_zero call)

/-- **Every step but a cancellation keeps the registrations.** -/
theorem Registered.step (hregistered : block.Registered) (hbalanced : block.Balanced)
    {action : BlockAction κ} (hkeeps : KeepsWaiting action)
    (hstep : block.step action = some next) : next.Registered := by
  rw [Registered, live] at hregistered ⊢
  cases action with
  | register call =>
      cases hstep
      have hwrap : (block.registered + 1) % 2 ^ 32 ≤ block.registered + 1 := Nat.mod_le _ _
      simp only [register, expected, Multiset.card_cons] at hregistered ⊢
      omega
  | acquire call =>
      obtain ⟨hcall, heq⟩ := Option.ite_none_right_eq_some.mp hstep
      cases heq
      have hcount := Multiset.card_erase_add_one hcall
      rcases acquire_cases call with ⟨taken, htaken, heq⟩ | heq
      · have hpending := (block.start.of_tryAcquire htaken).2
        rw [heq]
        simp only [expected, Multiset.card_cons] at hregistered ⊢
        omega
      · rw [heq]
        simp only [expected, Semaphore.pending_enqueue] at hregistered ⊢
        omega
  | resume call =>
      obtain ⟨hcall, heq⟩ := Option.ite_none_right_eq_some.mp hstep
      cases heq
      have hcount := (block.start.of_takeGranted hcall).2
      simp only [expected, Multiset.card_cons] at hregistered ⊢
      omega
  | cancel call => exact hkeeps.elim
  | cancelGranted call => exact hkeeps.elim
  | dropGuard call =>
      obtain ⟨hcall, heq⟩ := Option.ite_none_right_eq_some.mp hstep
      cases heq
      have hcount := Multiset.card_erase_add_one hcall
      have hexpected := hbalanced.expected_eq hcall
      simp only [expected] at hregistered hexpected ⊢
      omega
  | swap =>
      rw [MainThreadBlock.step] at hstep
      split at hstep
      · rename_i hmain
        cases hstep
        rw [Balanced, hmain] at hbalanced
        simp only [expected, hmain] at hregistered ⊢
        omega
      · nomatch hstep
  | addPermits =>
      rw [MainThreadBlock.step] at hstep
      split at hstep
      · rename_i count hmain
        cases hstep
        simp only [expected, hmain, Semaphore.pending_addPermits] at hregistered ⊢
        omega
      · nomatch hstep
  | finish =>
      rw [MainThreadBlock.step] at hstep
      split at hstep
      · rename_i count hmain
        obtain ⟨hdone, heq⟩ := Option.ite_none_right_eq_some.mp hstep
        cases heq
        simp only [expected, hmain] at hregistered ⊢
        omega
      · nomatch hstep

omit [DecidableEq κ] in
/-- Where all that is expected belongs to a call and there is none, all is done. -/
theorem Registered.releases (hregistered : block.Registered) : block.Releases := by
  intro _ hguards hregistering hpending
  rw [Registered, live, hguards, hregistering, hpending] at hregistered
  simp only [Multiset.card_zero] at hregistered
  omega

/-- **Guards are inside checkpoints, whatever is cancelled.** -/
theorem balanced_of_reachable {allowed : MainThreadBlock κ → BlockAction κ → Prop}
    (hreach : (blockSystem κ).Reachable allowed block) : block.Balanced := by
  apply hreach.invariant
  · intro block hstart
    rw [show block = .new from hstart]
    exact ⟨rfl, rfl, rfl⟩
  · intro block action next hbalanced _ hstep
    exact hbalanced.step hstep

/-- **Where no wait is cancelled, the barrier excludes and releases.** -/
theorem excludes_and_releases_of_reachable
    (hreach : (blockSystem κ).Reachable (fun _ action => KeepsWaiting action) block) :
    block.Excludes ∧ block.Releases := by
  have hkept : block.Balanced ∧ block.Registered := by
    apply hreach.invariant
    · intro block hstart
      rw [show block = .new from hstart]
      exact ⟨⟨rfl, rfl, rfl⟩, Nat.zero_le _⟩
    · intro block action next ⟨hbalanced, hregistered⟩ hkeeps hstep
      exact ⟨hbalanced.step hstep, hregistered.step hbalanced hkeeps hstep⟩
  exact ⟨hkept.1.excludes, hkept.2.releases⟩

/-- Two workers go through one checkpoint, in which one of them still is, and a third one comes
too late for it. -/
theorem excludes_and_releases_two_workers :
    ((blockSystem ℕ).after .new
      [.register 0, .acquire 0, .register 1, .swap, .addPermits, .acquire 1, .register 2,
        .acquire 2, .resume 0, .dropGuard 1]).Excludes ∧
    ((blockSystem ℕ).after .new
      [.register 0, .acquire 0, .register 1, .swap, .addPermits, .acquire 1, .register 2,
        .acquire 2, .resume 0, .dropGuard 1]).Releases := by
  refine excludes_and_releases_of_reachable (System.Reachable.after (.start rfl) ?_)
  exact System.runsWithin_of_forall (by simp [KeepsWaiting]) _

/-- A wait is cancelled, and the checkpoint after it waits for a guard that nobody has. -/
theorem not_releases_cancelled :
    ¬ ∀ block : MainThreadBlock ℕ, (blockSystem ℕ).Reachable (fun _ _ => True) block →
      block.Excludes ∧ block.Releases := by
  intro hall
  have hreach : (blockSystem ℕ).Reachable (fun _ _ => True) ((blockSystem ℕ).after .new
      [.register 0, .acquire 0, .cancel 0, .swap, .addPermits]) :=
    System.Reachable.after (.start rfl) (System.runsWithin_true _ _)
  have hinside : ((blockSystem ℕ).after .new
      [.register 0, .acquire 0, .cancel 0, .swap, .addPermits]).main ≠ .outside := by decide
  exact absurd ((hall _ hreach).2 hinside rfl rfl rfl) (by decide)

end MainThreadBlock

end Backstitch
