/-
# When the locks of a branch database cannot deadlock

A merge that waits for the state of its target is an edge from its source to its
target; one state leads to another along these edges.  Tasks end up waiting for one
another only where a lock is taken against one of the orders of `OrderKept`: between
`clear_branch_states` and the operations that take `binary_states` first, between a
merge and an operation that takes states under `branch_sync_states`, and among merges
whose branches form a ring.
-/

import Backstitch.Branches.Locks

namespace Backstitch

universe u v

open Relation

variable {κ : Type u} {π : Type v}

namespace LockState

section Order

variable (state : LockState κ π)

/-- A merge holds the state of `source` and still has to take that of `target`. -/
def Merging (source target : κ) : Prop :=
  ∃ task, (state.phase task).nesting = some (source, target)

/-- Merges in progress go from one branch to the next, and from the first to the last. -/
abbrev LeadsTo : κ → κ → Prop :=
  ReflTransGen state.Merging

/-- What the lock order asks of a step from this phase. -/
def Ordered : Phase κ → Prop
  | .clearWait => ∀ other states, state.phase other ≠ .binary states
  | .waitBinary _ => ∀ other, state.phase other ≠ .clearSync
  | .waitSync states | .binary states =>
      ∀ branch ∈ states, ∀ other source target,
        state.phase other = .nestSource source target → ¬ state.LeadsTo branch source
  | .nestWait source target =>
      (∀ branch ∈ target, ¬ state.LeadsTo branch source) ∧
        ∀ other, ∀ branch ∈ (state.phase other).statesUnderSync, ¬ state.LeadsTo branch source
  | _ => True

/-- `clear_branch_states` and the operations that take `binary_states` first are not
between their two locks at the same time; `branch_sync_states` is not taken to take a
state that leads to the source of a merge which still has to look up its target; and a
merge does not take its source while its target, or a state that is still to be taken
under `branch_sync_states`, leads to it. -/
def OrderKept : LockAction κ π → Prop
  | .proceed task => state.Ordered (state.phase task)
  | _ => True

/-- What the lock order keeps. -/
structure InOrder : Prop where
  holder_iff : ∀ lock task, state.holder lock = some task ↔ lock ∈ (state.phase task).held
  clearing : ∀ task other states, state.phase task = .clearSync →
    state.phase other ≠ .binary states
  underSync : ∀ task, ∀ branch ∈ (state.phase task).statesUnderSync,
    ∀ other source target, state.phase other = .nestSource source target →
      ¬ state.LeadsTo branch source
  acyclic : ∀ branch, ¬ TransGen state.Merging branch branch

end Order

/-! ## A ring of waiting tasks -/

section Ring

variable {state : LockState κ π} {task other holding : π}

/-- A task that waits in a ring. -/
def InRing (state : LockState κ π) (task : π) : Prop :=
  TransGen state.Waits task task

theorem InRing.exists_next (hring : state.InRing task) :
    ∃ next, state.Waits task next ∧ state.InRing next :=
  exists_next_of_cycle hring

/-- The task that is waited for in a ring waits itself. -/
theorem InRing.wants_ne_none (hring : state.InRing task) :
    (state.phase task).wants ≠ none := by
  obtain ⟨next, ⟨lock, hwants, -⟩, -⟩ := hring.exists_next
  rw [hwants]
  exact Option.some_ne_none lock

/-- A task in a ring holds a lock. -/
theorem InRing.held_ne_nil (hinv : state.InOrder) (hring : state.InRing task) :
    (state.phase task).held ≠ [] := by
  obtain ⟨before, -, lock, -, hholder⟩ := TransGen.tail'_iff.mp hring
  exact List.ne_nil_of_mem ((hinv.holder_iff lock task).mp hholder)

end Ring

end LockState

namespace Phase

/-- Who holds the state of a branch and waits is a merge of that branch. -/
theorem eq_nest_of_state_mem_held {phase : Phase κ} {branch : κ}
    (hmem : .state branch ∈ phase.held) (hwants : phase.wants ≠ none) :
    (∃ target, phase = .nestSource branch target) ∨ ∃ target, phase = .nestTarget branch target := by
  cases phase with
  | sync both states => cases both <;> simp [held] at hmem
  | nestSource source target =>
      obtain rfl : branch = source := by simpa [held] using hmem
      exact .inl ⟨target, rfl⟩
  | nestTarget source target =>
      obtain rfl : branch = source := by simpa [held] using hmem
      exact .inr ⟨target, rfl⟩
  | _ => simp_all [held, wants]

/-- Who holds `branch_sync_states` and waits is about to take a state, or clears. -/
theorem eq_of_branchSyncStates_mem_held {phase : Phase κ}
    (hmem : .branchSyncStates ∈ phase.held) (hwants : phase.wants ≠ none) :
    (∃ both branch rest, phase = .sync both (branch :: rest)) ∨ phase = .clearSync := by
  cases phase with
  | sync both states =>
      cases states with
      | nil => exact absurd rfl hwants
      | cons branch rest => exact .inl ⟨both, branch, rest, rfl⟩
  | clearSync => exact .inr rfl
  | _ => simp_all [held, wants]

/-- Who holds `binary_states` but not `branch_sync_states` and waits, waits for the
latter. -/
theorem eq_of_binaryStates_mem_held {phase : Phase κ} (hmem : .binaryStates ∈ phase.held)
    (hwants : phase.wants ≠ none) :
    .branchSyncStates ∈ phase.held ∨ ∃ states, phase = .binary states := by
  cases phase with
  | binary states => exact .inr ⟨states, rfl⟩
  | sync both states => exact .inl List.mem_cons_self
  | _ => simp_all [held, wants]

/-- Who holds a lock and waits holds `branch_sync_states`, waits for it, or is a merge that
waits for its target. -/
theorem eq_of_held_of_wants {phase : Phase κ} (hheld : phase.held ≠ [])
    (hwants : phase.wants ≠ none) :
    .branchSyncStates ∈ phase.held ∨ phase.wants = some .branchSyncStates ∨
      ∃ source target, phase = .nestTarget source target := by
  cases phase with
  | nestTarget source target => exact .inr (.inr ⟨source, target, rfl⟩)
  | _ => simp_all [held, wants]

end Phase

namespace LockState

section Ring

variable {state : LockState κ π} {task other holding : π}

/-- Along a ring, from a merge that waits for its target, there is a merge that waits for
`branch_sync_states`, and the first leads to it. -/
theorem InOrder.exists_nestSource (hinv : state.InOrder) {source target : κ}
    (hring : state.InRing task) (hphase : state.phase task = .nestTarget source target) :
    ∃ other first second, state.InRing other ∧
      state.phase other = .nestSource first second ∧ state.LeadsTo source first := by
  -- the next merge either is one that waits for `branch_sync_states`, or goes further
  have walk : ∀ last, TransGen state.Waits task last → ReflTransGen state.Waits last task →
      (∃ other first second, state.InRing other ∧
        state.phase other = .nestSource first second ∧ state.LeadsTo source first) ∨
      ∃ first second, state.phase last = .nestTarget first second ∧
        TransGen state.Merging source first := by
    have advance : ∀ {before last first second}, state.phase before = .nestTarget first second →
        state.Waits before last → state.InRing last →
        (∃ third, state.phase last = .nestSource second third) ∨
          ∃ third, state.phase last = .nestTarget second third := by
      intro before last first second hbefore ⟨lock, hwants, hholder⟩ hlast
      rw [hbefore] at hwants
      obtain rfl : Lock.state second = lock := by simpa [Phase.wants] using hwants
      exact Phase.eq_nest_of_state_mem_held ((hinv.holder_iff _ _).mp hholder)
        hlast.wants_ne_none
    intro last hwalk
    induction hwalk with
    | @single last hwaits =>
        intro hback
        have hlast : state.InRing last := TransGen.tail' hback hwaits
        have hedge : state.Merging source target := ⟨task, by rw [hphase]; rfl⟩
        rcases advance hphase hwaits hlast with ⟨third, hnext⟩ | ⟨third, hnext⟩
        · exact .inl ⟨last, target, third, hlast, hnext, .single hedge⟩
        · exact .inr ⟨target, third, hnext, .single hedge⟩
    | @tail before last hwalk hwaits ih =>
        intro hback
        have hlast : state.InRing last :=
          TransGen.tail' (hback.trans hwalk.to_reflTransGen) hwaits
        rcases ih (.head hwaits hback) with hfound | ⟨first, second, hbefore, hleads⟩
        · exact .inl hfound
        have hedge : state.Merging first second := ⟨before, by rw [hbefore]; rfl⟩
        rcases advance hbefore hwaits hlast with ⟨third, hnext⟩ | ⟨third, hnext⟩
        · exact .inl ⟨last, second, third, hlast, hnext, (hleads.tail hedge).to_reflTransGen⟩
        · exact .inr ⟨second, third, hnext, hleads.tail hedge⟩
  rcases walk task hring .refl with hfound | ⟨first, second, hagain, hleads⟩
  · exact hfound
  · obtain ⟨rfl, rfl⟩ : source = first ∧ target = second := by
      simpa [hphase] using hagain
    exact absurd hleads (hinv.acyclic source)

/-- Who holds `branch_sync_states` is in no ring. -/
theorem InOrder.not_inRing_of_holds (hinv : state.InOrder)
    (hholds : .branchSyncStates ∈ (state.phase task).held) : ¬ state.InRing task := by
  intro hring
  obtain ⟨next, ⟨lock, hwants, hholder⟩, hnext⟩ := hring.exists_next
  have hheld := (hinv.holder_iff lock next).mp hholder
  rcases Phase.eq_of_branchSyncStates_mem_held hholds hring.wants_ne_none with
    ⟨both, branch, rest, hphase⟩ | hphase
  · -- the state that is wanted is held by a merge that leads to one in need of the table
    rw [hphase] at hwants
    obtain rfl : Lock.state branch = lock := by simpa [Phase.wants] using hwants
    have hunder : branch ∈ (state.phase task).statesUnderSync := by
      rw [hphase]; exact List.mem_cons_self
    rcases Phase.eq_nest_of_state_mem_held hheld hnext.wants_ne_none with
      ⟨target, hmerge⟩ | ⟨target, hmerge⟩
    · exact hinv.underSync task branch hunder next branch target hmerge .refl
    · obtain ⟨other, first, second, -, hother, hleads⟩ := hinv.exists_nestSource hnext hmerge
      exact hinv.underSync task branch hunder other first second hother hleads
  · rw [hphase] at hwants
    obtain rfl : Lock.binaryStates = lock := by simpa [Phase.wants] using hwants
    rcases Phase.eq_of_binaryStates_mem_held hheld hnext.wants_ne_none with
      hsync | ⟨states, hbinary⟩
    · have hsame : some next = some task := by
        rw [← (hinv.holder_iff _ _).mpr hsync, (hinv.holder_iff _ _).mpr hholds]
      obtain rfl : next = task := Option.some.inj hsame
      rw [hphase] at hheld
      simp [Phase.held] at hheld
    · exact hinv.clearing task next states hphase hbinary

/-- Who waits for `branch_sync_states` is in no ring. -/
theorem InOrder.not_inRing_of_wants (hinv : state.InOrder)
    (hwants : (state.phase task).wants = some .branchSyncStates) : ¬ state.InRing task := by
  intro hring
  obtain ⟨next, ⟨lock, hlock, hholder⟩, hnext⟩ := hring.exists_next
  obtain rfl : lock = .branchSyncStates := Option.some.inj (hlock.symm.trans hwants)
  exact hinv.not_inRing_of_holds ((hinv.holder_iff _ _).mp hholder) hnext

/-- **Where the lock order is kept nobody waits in a ring.** -/
theorem InOrder.not_inRing (hinv : state.InOrder) (task : π) : ¬ state.InRing task := by
  intro hring
  rcases Phase.eq_of_held_of_wants (hring.held_ne_nil hinv) hring.wants_ne_none with
    hholds | hwants | ⟨source, target, hphase⟩
  · exact hinv.not_inRing_of_holds hholds hring
  · exact hinv.not_inRing_of_wants hwants hring
  · obtain ⟨other, first, second, hother, hmerge, -⟩ := hinv.exists_nestSource hring hphase
    exact hinv.not_inRing_of_wants (by rw [hmerge]; rfl) hother

end Ring

/-! ## What a step keeps -/

section Step

variable [DecidableEq π] {state next : LockState κ π} {task : π} {phase : Phase κ}

/-- A task that goes on to another phase adds a merge only where it takes its source. -/
theorem merging_of_follows (hphase : next.phase = Function.update state.phase task phase)
    (hfollows : (state.phase task).Follows phase) :
    (∀ first last, next.Merging first last → state.Merging first last) ∨
      ∃ source target, state.phase task = .nestWait source (some target) ∧
        ∀ first last, next.Merging first last →
          state.Merging first last ∨ first = source ∧ last = target := by
  have hadds : ∀ first last, next.Merging first last →
      state.Merging first last ∨ state.phase task = .nestWait first (some last) := by
    intro first last ⟨other, hnesting⟩
    rw [hphase, Function.update_apply] at hnesting
    split at hnesting
    · exact (hfollows.nesting hnesting).imp_left fun hold => ⟨task, hold⟩
    · exact .inl ⟨other, hnesting⟩
  by_cases hnew : ∃ source target, state.phase task = .nestWait source (some target)
  · obtain ⟨source, target, htask⟩ := hnew
    refine .inr ⟨source, target, htask, fun first last hmerging => ?_⟩
    simpa [htask, eq_comm] using hadds first last hmerging
  · refine .inl fun first last hmerging => ?_
    exact (hadds first last hmerging).resolve_right fun hwait => hnew ⟨first, last, hwait⟩

/-- What a merge that takes its source adds to the walks comes to that source. -/
theorem leadsTo_of_follows (hphase : next.phase = Function.update state.phase task phase)
    (hfollows : (state.phase task).Follows phase) {first last : κ}
    (hleads : next.LeadsTo first last) :
    state.LeadsTo first last ∨ ∃ source target,
      state.phase task = .nestWait source (some target) ∧ state.LeadsTo first source := by
  rcases merging_of_follows hphase hfollows with hold | ⟨source, target, htask, hlarger⟩
  · exact .inl (ReflTransGen.mono hold first last hleads)
  · exact (reflTransGen_or_of_adding hlarger hleads).imp_right fun hcomes =>
      ⟨source, target, htask, hcomes⟩

/-- A task that goes on to another phase in order keeps the order. -/
theorem InOrder.of_follows (hinv : state.InOrder)
    (hphase : next.phase = Function.update state.phase task phase)
    (hfollows : (state.phase task).Follows phase) (hordered : state.Ordered (state.phase task))
    (hholder : ∀ lock task, next.holder lock = some task ↔ lock ∈ (next.phase task).held) :
    next.InOrder where
  holder_iff := hholder
  clearing := by
    intro first second states hclear hbinary
    have hclear' : state.phase first = .clearSync ∨ state.phase task = .clearWait := by
      rw [hphase, Function.update_apply] at hclear
      split at hclear
      · exact .inr (hfollows.clearSync hclear)
      · exact .inl hclear
    have hbinary' : state.phase second = .binary states ∨
        state.phase task = .waitBinary states := by
      rw [hphase, Function.update_apply] at hbinary
      split at hbinary
      · exact .inr (hfollows.binary hbinary)
      · exact .inl hbinary
    rcases hclear' with hclear | hwait <;> rcases hbinary' with hbinary | hwait'
    · exact hinv.clearing first second states hclear hbinary
    · rw [hwait'] at hordered
      exact hordered first hclear
    · rw [hwait] at hordered
      exact hordered second states hbinary
    · nomatch hwait.symm.trans hwait'
  underSync := by
    intro first branch hunder second source target hsource hleads
    have hunder' : (∃ first, branch ∈ (state.phase first).statesUnderSync) ∨
        ∃ states, branch ∈ states ∧
          (state.phase task = .waitSync states ∨ state.phase task = .binary states) := by
      rw [hphase, Function.update_apply] at hunder
      split at hunder
      · exact (hfollows.underSync hunder).imp_left fun hold => ⟨task, hold⟩
      · exact .inl ⟨first, hunder⟩
    have hsource' : state.phase second = .nestSource source target ∨
        state.phase task = .nestWait source target := by
      rw [hphase, Function.update_apply] at hsource
      split at hsource
      · exact .inr (hfollows.nestSource hsource)
      · exact .inl hsource
    rcases hunder' with ⟨first, hunder⟩ | ⟨states, hmem, hwait⟩
    · -- a state that was to be taken before: only a merge that takes its source matters
      have apart : ∀ {source target}, state.phase task = .nestWait source target →
          ¬ state.LeadsTo branch source := by
        intro source target hwait
        rw [hwait] at hordered
        exact hordered.2 first branch hunder
      rcases leadsTo_of_follows hphase hfollows hleads with hleads | ⟨_, _, hwait, hleads⟩
      · rcases hsource' with hsource | hwait
        · exact hinv.underSync first branch hunder second source target hsource hleads
        · exact apart hwait hleads
      · exact apart hwait hleads
    · -- a state that is now to be taken: no merge takes its source in this step
      have hold : ∀ source target, state.phase task ≠ .nestWait source target := by
        intro source target hnest
        rcases hwait with hwait | hwait <;> nomatch hwait.symm.trans hnest
      have hapart : ¬ state.LeadsTo branch source := by
        have hsource := hsource'.resolve_right (hold source target)
        rcases hwait with hwait | hwait <;> rw [hwait] at hordered <;>
          exact hordered branch hmem second source target hsource
      rcases leadsTo_of_follows hphase hfollows hleads with hleads | ⟨_, _, hnest, -⟩
      · exact hapart hleads
      · exact hold _ _ hnest
  acyclic := by
    intro branch hcycle
    rcases merging_of_follows hphase hfollows with hold | ⟨source, target, htask, hlarger⟩
    · exact hinv.acyclic branch (TransGen.mono hold branch branch hcycle)
    · rw [htask] at hordered
      exact (cycle_or_of_adding hlarger hcycle).elim (hinv.acyclic branch)
        (hordered.1 target rfl)

variable [DecidableEq κ]

/-- Taking a lock nobody holds keeps the locks with who holds them. -/
theorem holder_iff_acquire (hinv : state.InOrder) {lock : Lock κ}
    (hwants : (state.phase task).wants = some lock)
    (hstep : state.acquire task lock = some next) (other : Lock κ) (holding : π) :
    next.holder other = some holding ↔ other ∈ (next.phase holding).held := by
  rw [acquire] at hstep
  split at hstep
  · rename_i hfree
    cases hstep
    simp only [setPhase, Function.update_apply]
    by_cases hlock : other = lock <;> by_cases hheld : holding = task
    · subst hlock hheld
      simp [Phase.mem_held_advance_iff hwants]
    · subst hlock
      have : other ∉ (state.phase holding).held := by
        rw [← hinv.holder_iff, hfree]
        nofun
      simp [hheld, Ne.symm hheld, this]
    · subst hheld
      simp [hlock, Phase.mem_held_advance_iff hwants, hinv.holder_iff]
    · simp [hlock, hheld, hinv.holder_iff]
  · nomatch hstep

/-- So does giving locks back. -/
theorem holder_iff_release (hinv : state.InOrder) (hwants : (state.phase task).wants = none)
    (other : Lock κ) (holding : π) :
    (state.release task).holder other = some holding ↔
      other ∈ ((state.release task).phase holding).held := by
  have hsubset := @Phase.held_advance_subset κ (state.phase task) hwants
  simp only [release, setPhase, Function.update_apply]
  by_cases hheld : holding = task
  · subst hheld
    by_cases hlock : other ∈ (state.phase holding).advance.held
    · simp [hlock, hinv.holder_iff, hsubset hlock]
    · simp [hlock, hinv.holder_iff]
  · by_cases hlock : other ∈ (state.phase task).held
    · have : other ∉ (state.phase holding).held := fun hmine =>
        hheld (Option.some.inj
          (((hinv.holder_iff other holding).mpr hmine).symm.trans
            ((hinv.holder_iff other task).mpr hlock)))
      have htask := (hinv.holder_iff other task).mpr hlock
      simp [hheld, hlock, this, htask, Ne.symm hheld]
    · simp [hheld, hlock, hinv.holder_iff]

/-- **A step in order keeps the order.** -/
theorem InOrder.step (hinv : state.InOrder) {action : LockAction κ π}
    (hordered : state.OrderKept action) (hstep : state.step action = some next) :
    next.InOrder := by
  have of_same : ∀ {rest}, InOrder { state with rest := rest } := fun {_} =>
    ⟨hinv.holder_iff, hinv.clearing, hinv.underSync, hinv.acyclic⟩
  cases action with
  | call task op =>
      rw [LockState.step] at hstep
      split at hstep <;> cases hstep
      exact of_same
  | quit task =>
      rw [LockState.step] at hstep
      split at hstep <;> cases hstep
      exact of_same
  | begin task =>
      rw [LockState.step] at hstep
      cases hrest : state.rest task with
      | nil => simp [hrest] at hstep
      | cons scope rest =>
          simp only [hrest] at hstep
          split at hstep <;> cases hstep
          rename_i hidle
          refine hinv.of_follows rfl (Phase.follows_start _ scope) (by rw [hidle]; trivial) ?_
          intro lock holding
          simp only [setPhase, Function.update_apply]
          split
          · subst holding
            rw [hinv.holder_iff, hidle, Phase.held_start]
            rfl
          · exact hinv.holder_iff lock holding
  | proceed task =>
      rw [LockState.step] at hstep
      cases hwants : (state.phase task).wants with
      | some lock =>
          simp only [hwants] at hstep
          have hphase : next.phase =
              Function.update state.phase task (state.phase task).advance := by
            rw [acquire] at hstep
            split at hstep <;> cases hstep
            rfl
          exact hinv.of_follows hphase (Phase.follows_advance _) hordered
            (holder_iff_acquire hinv hwants hstep)
      | none =>
          simp only [hwants] at hstep
          cases hstep
          exact hinv.of_follows rfl (Phase.follows_advance _) hordered
            (holder_iff_release hinv hwants)

end Step

end LockState

/-! ## Runs -/

section Runs

variable [DecidableEq κ] [DecidableEq π] {state : LockState κ π}

omit [DecidableEq κ] [DecidableEq π] in
theorem LockState.Idle.inOrder (hidle : state.Idle) : state.InOrder := by
  obtain ⟨hholder, hphase, -⟩ := hidle
  have hmerging : ∀ first last, ¬ state.Merging first last := by
    intro first last ⟨task, hnesting⟩
    rw [hphase] at hnesting
    nomatch hnesting
  constructor
  · intro lock task
    rw [hholder, hphase]
    exact ⟨nofun, nofun⟩
  · intro task other states hclear
    nomatch (hphase task).symm.trans hclear
  · intro task branch hunder
    rw [hphase] at hunder
    nomatch hunder
  · intro branch hcycle
    obtain ⟨next, hstep, -⟩ := TransGen.head'_iff.mp hcycle
    exact hmerging branch next hstep

/-- **While the lock order is kept, tasks never wait for one another in a ring.** -/
theorem LockState.not_deadlocked_of_reachable
    (hreach : (lockSystem (κ := κ) (π := π)).Reachable LockState.OrderKept state) :
    ¬ state.Deadlocked := by
  have hinv : state.InOrder := hreach.invariant (fun _ hidle => hidle.inOrder)
    fun _ _ _ hinv hordered hstep => hinv.step hordered hstep
  exact fun ⟨task, hring⟩ => hinv.not_inRing task hring

end Runs

/-- Nobody holds or does anything. -/
def idleLocks (κ : Type u) (π : Type v) : LockState κ π :=
  ⟨fun _ => none, fun _ => .idle, fun _ => []⟩

/-- A merge of branch 0 into branch 1 takes the state of 0. -/
def mergeTakesSource : List (LockAction ℕ Bool) :=
  [.call true (.mergeBranch 0 1 .ready .ready false false true), .begin true, .proceed true,
    .proceed true, .begin true, .proceed true, .proceed true, .begin true, .proceed true]

/-- A commit to a branch takes `branch_sync_states`. -/
def commitTakesTable (branch : ℕ) : List (LockAction ℕ Bool) :=
  [.call false (.commitFsChanges branch true false), .begin false, .proceed false]

/-- A branch from which nothing is being merged leads to no other. -/
theorem LockState.not_leadsTo {state : LockState κ π} {first last : κ} (hne : first ≠ last)
    (hfirst : ∀ task next, (state.phase task).nesting ≠ some (first, next)) :
    ¬ state.LeadsTo first last := by
  intro hleads
  rcases hleads.cases_head with heq | ⟨next, ⟨task, hnesting⟩, -⟩
  · exact hne heq
  · exact hfirst task next hnesting

/-- The commit to another branch makes the merge wait, and no more. -/
theorem LockState.not_deadlocked_of_mergeTakesSource_of_commitTakesTable :
    ((lockSystem.after (idleLocks ℕ Bool) (mergeTakesSource ++ commitTakesTable 2)).Waits
      true false) ∧
    ¬ (lockSystem.after (idleLocks ℕ Bool)
      (mergeTakesSource ++ commitTakesTable 2)).Deadlocked := by
  have hstart : lockSystem.start (idleLocks ℕ Bool) := ⟨fun _ => rfl, fun _ => rfl, fun _ => rfl⟩
  have hmerge : lockSystem.RunsWithin OrderKept (idleLocks ℕ Bool) mergeTakesSource := by
    refine .cons trivial rfl (.cons trivial rfl (.cons trivial rfl (.cons trivial rfl
      (.cons trivial rfl (.cons trivial rfl (.cons trivial rfl (.cons trivial rfl
        (.cons ⟨?_, ?_⟩ rfl trivial))))))))
    · intro branch hbranch
      obtain rfl : 1 = branch := Option.some.inj hbranch
      exact not_leadsTo (by decide) fun task next => by cases task <;> nofun
    · intro other branch hbranch
      cases other <;> nomatch hbranch
  have hcommit : lockSystem.RunsWithin OrderKept
      (lockSystem.after (idleLocks ℕ Bool) mergeTakesSource) (commitTakesTable 2) := by
    refine .cons trivial rfl (.cons trivial rfl (.cons ?_ rfl trivial))
    intro branch hbranch other source target hsource
    obtain rfl : branch = 2 := List.mem_singleton.mp hbranch
    cases other with
    | false => nomatch hsource
    | true =>
        cases hsource
        exact not_leadsTo (by decide) fun task next => by cases task <;> nofun
  refine ⟨⟨.branchSyncStates, rfl, rfl⟩, not_deadlocked_of_reachable ?_⟩
  exact (System.Reachable.start hstart).after (hmerge.append hcommit)

/-- The commit to the source makes the two wait for each other. -/
theorem not_reachable_imp_not_deadlocked :
    ¬ ∀ state : LockState ℕ Bool,
      lockSystem.Reachable (fun _ _ => True) state → ¬ state.Deadlocked := by
  intro hall
  have hstart : lockSystem.start (idleLocks ℕ Bool) := ⟨fun _ => rfl, fun _ => rfl, fun _ => rfl⟩
  refine hall _ ((System.Reachable.start hstart).after
    (System.runsWithin_true _ (mergeTakesSource ++ commitTakesTable 0))) ⟨true, ?_⟩
  have hmerge : (lockSystem.after (idleLocks ℕ Bool)
      (mergeTakesSource ++ commitTakesTable 0)).Waits true false :=
    ⟨.branchSyncStates, rfl, rfl⟩
  have hcommit : (lockSystem.after (idleLocks ℕ Bool)
      (mergeTakesSource ++ commitTakesTable 0)).Waits false true :=
    ⟨.state 0, rfl, rfl⟩
  exact .head hmerge (.single hcommit)

end Backstitch
