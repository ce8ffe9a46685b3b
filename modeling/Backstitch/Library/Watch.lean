/-
# Channels that keep the last value

A sender replaces the value of the channel, and a receiver remembers the version that it has seen.
Whoever keeps a copy has to mark the version as seen before the value is read: a value that is
sent in between is then read as well, or seen as a change later.
-/

import Mathlib.Tactic.Common

namespace Backstitch

universe u

/-- A value and the number of times that it was sent. -/
structure Watch (γ : Type u) where
  value : γ
  version : ℕ

namespace Watch

variable {γ : Type u} (channel : Watch γ)

def send (value : γ) : Watch γ := ⟨value, channel.version + 1⟩

/-- Only a value that differs is sent. -/
def sendIfModified [DecidableEq γ] (value : γ) : Watch γ :=
  if channel.value = value then channel else channel.send value

/-- A copy is the value of the channel, unless a version is there that its receiver has not
seen. -/
structure Follows (seen : ℕ) (copy : γ) : Prop where
  le : seen ≤ channel.version
  eq : seen = channel.version → copy = channel.value

variable {channel} {seen : ℕ} {copy value : γ}

/-- What is sent later is not seen yet. -/
theorem follows_send (hle : seen ≤ channel.version) (copy : γ) :
    (channel.send value).Follows seen copy where
  le := Nat.le_succ_of_le hle
  eq heq := absurd heq (Nat.ne_of_lt (Nat.lt_succ_of_le hle))

theorem le_version_sendIfModified [DecidableEq γ] (channel : Watch γ) (value : γ) :
    channel.version ≤ (channel.sendIfModified value).version := by
  unfold sendIfModified
  split
  · exact Nat.le_refl _
  · exact Nat.le_succ _

@[simp]
theorem value_sendIfModified [DecidableEq γ] (channel : Watch γ) (value : γ) :
    (channel.sendIfModified value).value = value := by
  unfold sendIfModified
  split
  · assumption
  · rfl

/-- A copy follows the channel whatever is sent. -/
theorem Follows.sendIfModified [DecidableEq γ] (hfollows : channel.Follows seen copy)
    (value : γ) : (channel.sendIfModified value).Follows seen copy := by
  unfold Watch.sendIfModified
  split
  · exact hfollows
  · exact follows_send hfollows.le copy

/-- **A version that was seen before the value is read.** -/
theorem follows_read (hle : seen ≤ channel.version) : channel.Follows seen channel.value :=
  ⟨hle, fun _ => rfl⟩

/-- **A version that is seen after the value was read**, which has to be still there. -/
theorem follows_mark (hcopy : copy = channel.value) : channel.Follows channel.version copy :=
  ⟨Nat.le_refl _, fun _ => hcopy⟩

end Watch

end Backstitch
