/-
# Counting semaphores

A semaphore has permits that are free, waiters in the order in which they came, and
waiters that were given a permit and have not gone on yet.  Added permits go to the first
waiters; a waiter that gives up hands its permit to the next one.
-/

import Mathlib.Data.Multiset.AddSub

namespace Backstitch

universe u

structure Semaphore (κ : Type u) where
  permits : ℕ
  waiters : List κ
  /-- These have a permit and have not gone on yet. -/
  granted : Multiset κ

namespace Semaphore

variable {κ : Type u} (semaphore : Semaphore κ) {waiter : κ}

/-- A semaphore without permits. -/
def empty : Semaphore κ := ⟨0, [], 0⟩

/-- Permits go to the first waiters, and what is left is free. -/
def addPermits (count : ℕ) : Semaphore κ where
  permits := semaphore.permits + (count - semaphore.waiters.length)
  waiters := semaphore.waiters.drop count
  granted := semaphore.granted + (semaphore.waiters.take count : List κ)

/-- The permits that are there for somebody. -/
def available : ℕ := semaphore.permits + semaphore.granted.card

/-- How many wait or have just been given a permit. -/
def pending : ℕ := semaphore.waiters.length + semaphore.granted.card

/-- Take a free permit, if there is one. -/
def tryAcquire : Option (Semaphore κ) :=
  if semaphore.permits = 0 then none
  else some { semaphore with permits := semaphore.permits - 1 }

/-- Wait at the end of the queue. -/
def enqueue (waiter : κ) : Semaphore κ :=
  { semaphore with waiters := semaphore.waiters ++ [waiter] }

/-! ## Counting -/

@[simp]
theorem available_empty : (empty : Semaphore κ).available = 0 := rfl

@[simp]
theorem pending_empty : (empty : Semaphore κ).pending = 0 := rfl

@[simp]
theorem available_addPermits (count : ℕ) :
    (semaphore.addPermits count).available = semaphore.available + count := by
  simp only [available, addPermits, Multiset.card_add, Multiset.coe_card, List.length_take]
  omega

@[simp]
theorem pending_addPermits (count : ℕ) :
    (semaphore.addPermits count).pending = semaphore.pending := by
  simp only [pending, addPermits, Multiset.card_add, Multiset.coe_card, List.length_take,
    List.length_drop]
  omega

theorem of_tryAcquire {taken : Semaphore κ} (htaken : semaphore.tryAcquire = some taken) :
    taken.available + 1 = semaphore.available ∧ taken.pending = semaphore.pending := by
  rw [tryAcquire] at htaken
  split at htaken
  · nomatch htaken
  · rename_i hfree
    cases htaken
    refine ⟨?_, rfl⟩
    rw [available, available, Nat.add_right_comm, Nat.sub_one_add_one hfree]

@[simp]
theorem available_enqueue (waiter : κ) :
    (semaphore.enqueue waiter).available = semaphore.available := rfl

@[simp]
theorem pending_enqueue (waiter : κ) :
    (semaphore.enqueue waiter).pending = semaphore.pending + 1 := by
  simp only [pending, enqueue, List.length_append, List.length_singleton]
  omega

/-! ## Going on and giving up -/

variable [DecidableEq κ]

/-- Go on with the permit that was given. -/
def takeGranted (waiter : κ) : Semaphore κ :=
  { semaphore with granted := semaphore.granted.erase waiter }

/-- Give up waiting. -/
def leave (waiter : κ) : Semaphore κ :=
  { semaphore with waiters := semaphore.waiters.erase waiter }

/-- Give a permit back that has not been used. -/
def giveBack (waiter : κ) : Semaphore κ :=
  (semaphore.takeGranted waiter).addPermits 1

theorem of_takeGranted (hgranted : waiter ∈ semaphore.granted) :
    (semaphore.takeGranted waiter).available + 1 = semaphore.available ∧
      (semaphore.takeGranted waiter).pending + 1 = semaphore.pending := by
  have hcard := Multiset.card_erase_add_one hgranted
  simp only [available, pending, takeGranted]
  omega

@[simp]
theorem available_leave (waiter : κ) :
    (semaphore.leave waiter).available = semaphore.available := rfl

/-- A permit that is given back is there for somebody again. -/
theorem available_giveBack (hgranted : waiter ∈ semaphore.granted) :
    (semaphore.giveBack waiter).available = semaphore.available := by
  rw [giveBack, available_addPermits, (semaphore.of_takeGranted hgranted).1]

end Semaphore

end Backstitch
