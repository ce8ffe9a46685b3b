/-
# Fair readers-writer locks

Who asks for the lock waits at the end of a queue, and the front of the queue is let in as
soon as it can be: readers together, a writer alone.  So a reader that comes later than a
writer waits for it, even while the lock is held for reading.
-/

import Mathlib.Data.List.Basic

namespace Backstitch

universe u

inductive LockMode
  | read
  | write
  deriving DecidableEq

structure RwLock (κ : Type u) where
  writer : Option κ
  readers : List κ
  /-- These wait, in the order in which they came. -/
  queue : List (κ × LockMode)

namespace RwLock

variable {κ : Type u}

/-- A free lock. -/
def free : RwLock κ := ⟨none, [], []⟩

/-- The front of a queue is let in, as far as it can be. -/
def grant (writer : Option κ) (readers : List κ) : List (κ × LockMode) → RwLock κ
  | [] => ⟨writer, readers, []⟩
  | (holder, .read) :: queue =>
      if writer.isNone then grant writer (holder :: readers) queue
      else ⟨writer, readers, (holder, .read) :: queue⟩
  | (holder, .write) :: queue =>
      if writer.isNone && readers.isEmpty then ⟨some holder, [], queue⟩
      else ⟨writer, readers, (holder, .write) :: queue⟩

variable (lock : RwLock κ)

/-- Ask for the lock. -/
def request (holder : κ) (mode : LockMode) : RwLock κ :=
  grant lock.writer lock.readers (lock.queue ++ [(holder, mode)])

/-- The writer becomes a reader. -/
def downgrade (holder : κ) : RwLock κ :=
  grant none (holder :: lock.readers) lock.queue

/-- Give a read lock back. -/
def releaseRead [DecidableEq κ] (holder : κ) : RwLock κ :=
  grant lock.writer (lock.readers.erase holder) lock.queue

/-- A writer is alone. -/
def Exclusive : Prop := lock.writer ≠ none → lock.readers = []

/-- The front of the queue has something to wait for. -/
def Settled : Prop :=
  match lock.queue with
  | [] => True
  | (_, .read) :: _ => lock.writer ≠ none
  | (_, .write) :: _ => lock.writer ≠ none ∨ lock.readers ≠ []

/-- No reader waits behind a writer that waits. -/
def ReadersFirst : Prop :=
  lock.queue.Pairwise fun first second => second.2 = .read → first.2 = .read

variable {lock} {writer : Option κ} {readers : List κ} {queue : List (κ × LockMode)}
  {holder : κ} {mode : LockMode}

/-! ## Letting the front of the queue in -/

theorem settled_grant : (grant writer readers queue).Settled := by
  induction queue generalizing readers with
  | nil => trivial
  | cons entry queue ih =>
      obtain ⟨holder, mode⟩ := entry
      cases mode with
      | read =>
          rw [grant]
          split
          case isTrue => exact ih
          case isFalse htaken => simpa [Settled] using htaken
      | write =>
          rw [grant]
          split
          case isTrue =>
              cases queue with
              | nil => trivial
              | cons next queue =>
                  obtain ⟨_, _ | _⟩ := next
                  · simp [Settled]
                  · simp [Settled]
          case isFalse htaken =>
              have hbusy : writer = none → readers ≠ [] := by simpa using htaken
              by_cases hwriter : writer = none
              · exact .inr (hbusy hwriter)
              · exact .inl hwriter

theorem exclusive_grant (hexclusive : writer ≠ none → readers = []) :
    (grant writer readers queue).Exclusive := by
  induction queue generalizing readers with
  | nil => exact hexclusive
  | cons entry queue ih =>
      obtain ⟨holder, mode⟩ := entry
      cases mode with
      | read =>
          rw [grant]
          split
          case isTrue hfree =>
              exact ih fun hwriter => absurd (Option.isNone_iff_eq_none.mp hfree) hwriter
          case isFalse => exact hexclusive
      | write =>
          rw [grant]
          split
          case isTrue => exact fun _ => rfl
          case isFalse => exact hexclusive

/-- Who is still waiting keeps the order. -/
theorem queue_grant_suffix : (grant writer readers queue).queue <:+ queue := by
  induction queue generalizing readers with
  | nil => exact List.suffix_refl _
  | cons entry queue ih =>
      obtain ⟨holder, mode⟩ := entry
      cases mode with
      | read =>
          rw [grant]
          split
          case isTrue => exact ih.trans (List.suffix_cons _ _)
          case isFalse => exact List.suffix_refl _
      | write =>
          rw [grant]
          split
          case isTrue => exact List.suffix_cons _ _
          case isFalse => exact List.suffix_refl _

theorem mem_readers_grant (hmem : holder ∈ readers) :
    holder ∈ (grant writer readers queue).readers := by
  induction queue generalizing readers with
  | nil => exact hmem
  | cons entry queue ih =>
      obtain ⟨other, mode⟩ := entry
      cases mode with
      | read =>
          rw [grant]
          split
          case isTrue => exact ih (List.mem_cons_of_mem other hmem)
          case isFalse => exact hmem
      | write =>
          rw [grant]
          split
          case isTrue hfree =>
              have hempty : readers = [] := (by simpa using hfree : writer = none ∧ readers = []).2
              rw [hempty] at hmem
              exact absurd hmem List.not_mem_nil
          case isFalse => exact hmem

theorem writer_grant (hwriter : writer = some holder) :
    (grant writer readers queue).writer = some holder := by
  subst hwriter
  cases queue with
  | nil => rfl
  | cons entry queue =>
      obtain ⟨other, _ | _⟩ := entry
      · rfl
      · rfl

/-- Where the front of the queue has to wait, nobody is let in. -/
theorem grant_append_of_settled (hsettled : lock.Settled) (hwaits : lock.queue ≠ [])
    (extra : List (κ × LockMode)) :
    grant lock.writer lock.readers (lock.queue ++ extra) =
      ⟨lock.writer, lock.readers, lock.queue ++ extra⟩ := by
  rw [Settled] at hsettled
  cases hqueue : lock.queue with
  | nil => exact absurd hqueue hwaits
  | cons entry queue =>
      rw [hqueue] at hsettled
      obtain ⟨front, mode⟩ := entry
      cases mode with
      | read =>
          rw [List.cons_append, grant, if_neg]
          simpa using hsettled
      | write =>
          rw [List.cons_append, grant, if_neg]
          rcases hsettled with hwriter | hreaders
          · simp [hwriter]
          · simp [hreaders]

/-! ## The operations -/

theorem settled_request : (lock.request holder mode).Settled := settled_grant

theorem settled_downgrade : (lock.downgrade holder).Settled := settled_grant

theorem Exclusive.request (hexclusive : lock.Exclusive) :
    (lock.request holder mode).Exclusive :=
  exclusive_grant hexclusive

theorem exclusive_downgrade : (lock.downgrade holder).Exclusive :=
  exclusive_grant fun hwriter => absurd rfl hwriter

theorem mem_readers_request {other : κ} (hmem : other ∈ lock.readers) :
    other ∈ (lock.request holder mode).readers :=
  mem_readers_grant hmem

theorem mem_readers_downgrade : holder ∈ (lock.downgrade holder).readers :=
  mem_readers_grant List.mem_cons_self

theorem writer_request {other : κ} (hwriter : lock.writer = some other) :
    (lock.request holder mode).writer = some other :=
  writer_grant hwriter

theorem ReadersFirst.grant
    (hfirst : queue.Pairwise fun first second => second.2 = LockMode.read → first.2 = .read) :
    (grant writer readers queue).ReadersFirst :=
  hfirst.sublist queue_grant_suffix.sublist

theorem ReadersFirst.downgrade (hfirst : lock.ReadersFirst) :
    (lock.downgrade holder).ReadersFirst :=
  ReadersFirst.grant hfirst

/-- A writer comes behind everybody. -/
theorem ReadersFirst.requestWrite (hfirst : lock.ReadersFirst) :
    (lock.request holder .write).ReadersFirst := by
  refine ReadersFirst.grant (List.pairwise_append.mpr ⟨hfirst, List.pairwise_singleton _ _, ?_⟩)
  intro first _ second hsecond hread
  rw [List.mem_singleton.mp hsecond] at hread
  exact nomatch hread

/-- A reader that comes while no writer waits has none in front of it. -/
theorem ReadersFirst.requestRead (hfirst : lock.ReadersFirst)
    (hnone : ∀ entry ∈ lock.queue, entry.2 = .read) :
    (lock.request holder .read).ReadersFirst := by
  refine ReadersFirst.grant (List.pairwise_append.mpr ⟨hfirst, List.pairwise_singleton _ _, ?_⟩)
  exact fun first hmem _ _ _ => hnone first hmem

section Release

variable [DecidableEq κ] {other : κ}

theorem settled_releaseRead : (lock.releaseRead holder).Settled := settled_grant

theorem Exclusive.releaseRead (hexclusive : lock.Exclusive) :
    (lock.releaseRead holder).Exclusive := by
  refine exclusive_grant fun hwriter => ?_
  rw [hexclusive hwriter, List.erase_nil]

theorem mem_readers_releaseRead (hne : other ≠ holder) (hmem : other ∈ lock.readers) :
    other ∈ (lock.releaseRead holder).readers :=
  mem_readers_grant ((List.mem_erase_of_ne hne).mpr hmem)

theorem writer_releaseRead (hwriter : lock.writer = some other) :
    (lock.releaseRead holder).writer = some other :=
  writer_grant hwriter

theorem ReadersFirst.releaseRead (hfirst : lock.ReadersFirst) :
    (lock.releaseRead holder).ReadersFirst :=
  ReadersFirst.grant hfirst

end Release

/-- **Behind somebody who waits, everybody waits.** -/
theorem mem_queue_request (hsettled : lock.Settled) (hwaits : lock.queue ≠ []) :
    (holder, mode) ∈ (lock.request holder mode).queue := by
  rw [request, grant_append_of_settled hsettled hwaits]
  exact List.mem_append_right _ List.mem_cons_self

/-- **No reader waits for readers, unless a writer waits in front of it.** -/
theorem readers_eq_nil_of_read_waits (hexclusive : lock.Exclusive) (hsettled : lock.Settled)
    (hfirst : lock.ReadersFirst) (hwaits : (holder, LockMode.read) ∈ lock.queue) :
    lock.readers = [] := by
  rw [Settled] at hsettled
  rw [ReadersFirst] at hfirst
  cases hqueue : lock.queue with
  | nil =>
      rw [hqueue] at hwaits
      exact absurd hwaits List.not_mem_nil
  | cons entry queue =>
      rw [hqueue] at hsettled hfirst hwaits
      obtain ⟨front, mode⟩ := entry
      have hread : mode = .read := by
        rcases List.mem_cons.mp hwaits with heq | hmem
        · exact (Prod.mk.inj heq).2.symm
        · exact (List.pairwise_cons.mp hfirst).1 _ hmem rfl
      subst hread
      exact hexclusive hsettled

end RwLock

end Backstitch
