/-
# The branch that is stored

The sync loop sends the ref whenever the branch has changed, and `process` stores the branch in
the config.  It reads the ref first and marks it as seen once the branch is stored, so that a ref
that is sent meanwhile is lost; so is one whose branch cannot be stored, as the error is only
logged.  And the sync loop panics if nobody has subscribed yet.
-/

import Backstitch.Library.System
import Backstitch.Library.Watch

namespace Backstitch

universe u

/-- Where `process` stands. -/
inductive StorePhase (κ : Type u)
  | outside
  | storing (branch : Option κ)
  /-- The branch is stored, or could not be, and the version is marked next. -/
  | stored
  deriving DecidableEq

/-- The channel of refs, of which only the branch is read, with the sync loop before it and
`process` behind it. -/
structure RefChannel (κ : Type u) where
  refs : Watch (Option κ)
  /-- The version that `checked_out_ref_rx` has seen. -/
  checkedOutRefRx : Option ℕ
  phase : StorePhase κ
  /-- `checked_out_branch_doc_id`. -/
  config : Option κ
  /-- The sync loop has not panicked. -/
  syncing : Bool

inductive RefAction (κ : Type u)
  /-- The sync loop sends the ref, since its branch has changed. -/
  | send (branch : Option κ)
  | subscribe
  | borrow
  /-- `set_string`, which logs an error of the config and returns. -/
  | store (succeeds : Bool)
  | mark
  deriving DecidableEq

namespace RefChannel

variable {κ : Type u} (channel : RefChannel κ)

def new (config : Option κ) : RefChannel κ := ⟨⟨none, 0⟩, none, .outside, config, true⟩

/-- Without a receiver, `send` fails. -/
def step : RefAction κ → Option (RefChannel κ)
  | .send branch =>
      if channel.syncing then
        match channel.checkedOutRefRx with
        | none => some { channel with syncing := false }
        | some _ => some { channel with refs := channel.refs.send branch }
      else none
  | .subscribe =>
      match channel.checkedOutRefRx with
      | none => some { channel with checkedOutRefRx := some channel.refs.version }
      | some _ => none
  | .borrow =>
      match channel.phase, channel.checkedOutRefRx with
      | .outside, some seen =>
          if seen ≠ channel.refs.version then
            some { channel with phase := .storing channel.refs.value }
          else none
      | _, _ => none
  | .store succeeds =>
      match channel.phase with
      | .storing branch =>
          some { channel with
            config := if succeeds then branch else channel.config, phase := .stored }
      | _ => none
  | .mark =>
      match channel.phase with
      | .stored =>
          some { channel with
            checkedOutRefRx := some channel.refs.version, phase := .outside }
      | _ => none

end RefChannel

/-- The channel of refs, with a sync loop and a frontend. -/
def refSystem (κ : Type u) : System (RefChannel κ) (RefAction κ) where
  start channel := ∃ config, channel = .new config
  step := RefChannel.step

namespace RefChannel

variable {κ : Type u} {channel next : RefChannel κ} {action : RefAction κ}

/-- The sync loop sends after `process` has subscribed, and not while it stores a branch; and every
branch can be stored. -/
def SentBetween (channel : RefChannel κ) : RefAction κ → Prop
  | .send _ => channel.checkedOutRefRx ≠ none ∧ channel.phase = .outside
  | .store succeeds => succeeds = true
  | _ => True

/-- What is stored is what was read, and what was read is what was sent last. -/
structure Stores (channel : RefChannel κ) : Prop where
  syncing : channel.syncing = true
  unsubscribed : channel.checkedOutRefRx = none →
    channel.refs.version = 0 ∧ channel.phase = .outside
  seen : ∀ seen, channel.checkedOutRefRx = some seen → seen ≤ channel.refs.version
  outside : ∀ seen, channel.phase = .outside → channel.checkedOutRefRx = some seen → 0 < seen →
    channel.refs.Follows seen channel.config
  storing : ∀ branch, channel.phase = .storing branch → branch = channel.refs.value
  stored : channel.phase = .stored → channel.config = channel.refs.value

theorem stores_new (config : Option κ) : (new config).Stores := by
  constructor <;> simp [new]

/-- **Step lemma.** -/
theorem Stores.step (hstores : channel.Stores) (hbetween : SentBetween channel action)
    (hstep : channel.step action = some next) : next.Stores := by
  cases action with
  | send branch =>
      obtain ⟨hrx, hphase⟩ := hbetween
      have hnext : next = { channel with refs := channel.refs.send branch } := by
        simp only [RefChannel.step] at hstep
        split at hstep
        · split at hstep
          · next hnone => exact absurd hnone hrx
          · exact (Option.some.inj hstep).symm
        · cases hstep
      subst hnext
      constructor
      case syncing => exact hstores.syncing
      case unsubscribed => exact fun hnone => absurd hnone hrx
      case seen => exact fun other hother => Nat.le_succ_of_le (hstores.seen other hother)
      case outside =>
        intro other _ hother _
        exact Watch.follows_send (hstores.seen other hother) _
      case storing =>
        intro stored hstoring
        rw [show channel.phase = .storing stored from hstoring] at hphase
        cases hphase
      case stored =>
        intro hstored
        rw [show channel.phase = .stored from hstored] at hphase
        cases hphase
  | subscribe =>
      simp only [RefChannel.step] at hstep
      split at hstep
      · next hnone =>
        cases hstep
        obtain ⟨hversion, hphase⟩ := hstores.unsubscribed hnone
        constructor
        case syncing => exact hstores.syncing
        case unsubscribed => simp
        case seen =>
          rintro _ ⟨⟩
          exact Nat.le_refl _
        case outside =>
          rintro _ - ⟨⟩ hpos
          omega
        case storing => exact hstores.storing
        case stored => exact hstores.stored
      · cases hstep
  | borrow =>
      simp only [RefChannel.step] at hstep
      split at hstep
      · next seen _ hseen =>
        split at hstep
        · cases hstep
          constructor
          case syncing => exact hstores.syncing
          case unsubscribed => simp [hseen]
          case seen => exact hstores.seen
          case outside => simp
          case storing =>
            rintro _ ⟨⟩
            rfl
          case stored => simp
        · cases hstep
      · cases hstep
  | store succeeds =>
      obtain rfl : succeeds = true := hbetween
      simp only [RefChannel.step] at hstep
      split at hstep
      · next branch hstoring =>
        cases hstep
        constructor
        case syncing => exact hstores.syncing
        case unsubscribed =>
          intro hnone
          rw [(hstores.unsubscribed hnone).2] at hstoring
          cases hstoring
        case seen => exact hstores.seen
        case outside => simp
        case storing => simp
        case stored => exact fun _ => hstores.storing branch hstoring
      · cases hstep
  | mark =>
      simp only [RefChannel.step] at hstep
      split at hstep
      · next hstored =>
        cases hstep
        constructor
        case syncing => exact hstores.syncing
        case unsubscribed => simp
        case seen =>
          rintro _ ⟨⟩
          exact Nat.le_refl _
        case outside =>
          rintro _ - ⟨⟩ -
          exact Watch.follows_mark (hstores.stored hstored)
        case storing => simp
        case stored => simp
      · cases hstep

/-- **The branch that was sent last is stored**, once `process` has seen it, as long as no ref is
sent while it stores the one before and no store fails; and the sync loop goes on. -/
theorem storesBranch_of_reachable (hreach : (refSystem κ).Reachable SentBetween channel) :
    channel.syncing = true ∧ (channel.phase = .outside → 0 < channel.refs.version →
      channel.checkedOutRefRx = some channel.refs.version → channel.config = channel.refs.value) := by
  have hstores : channel.Stores := by
    apply hreach.invariant
    · rintro _ ⟨config, rfl⟩
      exact stores_new config
    · exact fun _ _ _ hstores hbetween hstep => hstores.step hbetween hstep
  refine ⟨hstores.syncing, fun hphase hpos hseen => ?_⟩
  exact (hstores.outside _ hphase hseen hpos).eq rfl

/-- **A branch that could not be stored is not stored later**: once `process` has seen its ref, only
another ref makes it go on. -/
theorem sends_of_seen (hphase : channel.phase = .outside)
    (hseen : channel.checkedOutRefRx = some channel.refs.version)
    (hstep : channel.step action = some next) : ∃ branch, action = .send branch := by
  cases action with
  | send branch => exact ⟨branch, rfl⟩
  | subscribe => simp [RefChannel.step, hseen] at hstep
  | borrow => simp [RefChannel.step, hphase, hseen] at hstep
  | store succeeds => simp [RefChannel.step, hphase] at hstep
  | mark => simp [RefChannel.step, hphase] at hstep

/-- A branch is checked out, and `process` stores it. -/
def checkoutRun : List (RefAction ℕ) := [.subscribe, .send (some 1), .borrow, .store true, .mark]

theorem storesBranch_checkoutRun :
    let channel := (refSystem ℕ).after (new (some 0)) checkoutRun
    channel.syncing = true ∧ (channel.phase = .outside → 0 < channel.refs.version →
      channel.checkedOutRefRx = some channel.refs.version → channel.config = channel.refs.value) := by
  refine storesBranch_of_reachable (System.Reachable.after (.start ⟨_, rfl⟩) ?_)
  refine System.RunsWithin.cons trivial rfl (System.RunsWithin.cons ⟨by decide, rfl⟩ rfl ?_)
  exact System.runsWithin_of_forall (by simp [SentBetween]) _

end RefChannel

end Backstitch
