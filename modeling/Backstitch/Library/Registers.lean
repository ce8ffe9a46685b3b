/-
# Registers of a replicated document

A document with registers shows at each location the live operation with the greatest
id, and a new operation overwrites whatever is live where it is made.  Ids are counters
paired with actors: an actor that makes an operation counts on from the greatest counter
it has seen, so ids of different actors never meet.
-/

import Backstitch.Library.OpSet
import Mathlib.Data.Finset.Lattice.Fold
import Mathlib.Data.Fintype.Basic
import Mathlib.Order.Lattice.Nat

namespace Backstitch

universe u v

namespace OpSet

variable {loc : Type u} {val : Type v}

/-- The element of a collection that has just one. -/
def only {α : Type u} : Multiset α → Option α :=
  Quotient.lift (fun | [element] => some element | _ => none) (by
    intro first second hperm
    have hlength := hperm.length_eq
    match first, second with
    | [], [] => rfl
    | [_], [_] => rw [List.perm_singleton.mp hperm]
    | _ :: _ :: _, _ :: _ :: _ => rfl)

theorem only_eq_some_iff {α : Type u} {elements : Multiset α} {element : α} :
    only elements = some element ↔ elements = {element} := by
  refine Quotient.inductionOn elements fun list => ?_
  rw [← Multiset.coe_singleton]
  change (match list with | [found] => some found | _ => none) = some element ↔
    (list : Multiset α) = ([element] : List α)
  rw [Multiset.coe_eq_coe, List.perm_singleton]
  match list with
  | [] => exact ⟨nofun, nofun⟩
  | [_] => exact ⟨fun heq => by rw [Option.some.inj heq], fun heq => by rw [List.singleton_inj.mp heq]⟩
  | _ :: _ :: _ => exact ⟨nofun, nofun⟩

variable [DecidableEq loc]

/-- The operation that a location shows. -/
def winner (ops : OpSet loc val) (location : loc) : Option (Op loc val) :=
  only (Finset.filter (fun op => ∀ other ∈ ops.live location, other.id ≤ op.id)
    (ops.live location)).val

/-- Write or delete at a location: overwrite whatever is live there. -/
def write [DecidableEq val] (ops : OpSet loc val) (id : ℕ) (location : loc) (value : Option val) :
    OpSet loc val :=
  insert ⟨id, location, value, (ops.live location).image Op.id⟩ ops

/-- Ids are unique, and an operation overwrites earlier ones only. -/
structure Orderly (ops : OpSet loc val) : Prop where
  uniqueIds : ops.UniqueIds
  earlier : ∀ op ∈ ops, ∀ id ∈ op.overwrites, id < op.id

section Read

variable {ops : OpSet loc val} {location : loc} {op : Op loc val}

theorem winner_eq_some_iff (hunique : ops.UniqueIds) :
    ops.winner location = some op ↔ ops.Wins location op := by
  rw [winner, only_eq_some_iff, ← Finset.singleton_val, Finset.val_inj]
  constructor
  · intro heq
    have hmem : op ∈ Finset.filter (fun op => ∀ other ∈ ops.live location, other.id ≤ op.id)
        (ops.live location) := heq ▸ Finset.mem_singleton_self op
    exact Finset.mem_filter.mp hmem
  · intro hwins
    ext other
    rw [Finset.mem_filter, Finset.mem_singleton]
    exact ⟨fun hother => Wins.unique hunique hother hwins, fun heq => heq ▸ hwins⟩

theorem winner_eq_none_iff (hunique : ops.UniqueIds) :
    ops.winner location = none ↔ ops.live location = ∅ := by
  constructor
  · intro hnone
    by_contra hlive
    obtain ⟨op, hwins⟩ := exists_wins (Finset.nonempty_iff_ne_empty.mpr hlive)
    rw [(winner_eq_some_iff hunique).mpr hwins] at hnone
    nomatch hnone
  · intro hempty
    rw [winner, hempty]
    rfl

/-- What is shown is live. -/
theorem mem_live_of_winner (hunique : ops.UniqueIds) (hwinner : ops.winner location = some op) :
    op ∈ ops.live location :=
  ((winner_eq_some_iff hunique).mp hwinner).1

/-- A location where the same is live shows the same. -/
theorem winner_congr {more : OpSet loc val} (hlive : more.live location = ops.live location) :
    more.winner location = ops.winner location := by
  rw [winner, winner, hlive]

/-- A location with one live operation shows it. -/
theorem winner_eq_of_live_eq (hlive : ops.live location = {op}) :
    ops.winner location = some op := by
  rw [winner, only_eq_some_iff, hlive, ← Finset.singleton_val, Finset.val_inj]
  ext other
  simp only [Finset.mem_filter, Finset.mem_singleton, forall_eq]
  exact ⟨And.left, fun heq => ⟨heq, heq ▸ le_rfl⟩⟩

/-- A location with one live operation: what holds of it, and of all that is overwritten by
something of which it holds, holds of every write there. -/
theorem of_live_eq_singleton {holds : Op loc val → Prop} (horderly : ops.Orderly)
    (hwrites : ∀ op ∈ ops, op.location = location → op.value ≠ none)
    (hlive : ops.live location = {op}) (hop : holds op)
    (hback : ∀ first ∈ ops, ∀ second ∈ ops, first.location = location →
      second.location = location → first.id ∈ second.overwrites → holds second → holds first) :
    ∀ other ∈ ops, other.location = location → holds other := by
  classical
  by_contra hbad
  push Not at hbad
  obtain ⟨found, hfound, hwhere, hnot⟩ := hbad
  -- the latest one of which it does not hold is overwritten by a later one
  have hsome : (ops.filter fun other => other.location = location ∧ ¬ holds other).Nonempty :=
    ⟨found, Finset.mem_filter.mpr ⟨hfound, hwhere, hnot⟩⟩
  obtain ⟨last, hlast, hgreatest⟩ := Finset.exists_max_image _ Op.id hsome
  obtain ⟨hmem, hwhere, hnot⟩ := Finset.mem_filter.mp hlast
  by_cases hoverwritten : ops.Overwritten last
  · obtain ⟨next, hnext, hsame, hover⟩ := hoverwritten
    have hlater : last.id < next.id := horderly.earlier next hnext last.id hover
    have hholds : holds next := by
      by_contra hnext'
      have hin : next ∈ ops.filter fun other => other.location = location ∧ ¬ holds other :=
        Finset.mem_filter.mpr ⟨hnext, hsame.trans hwhere, hnext'⟩
      exact absurd hlater (Nat.not_lt.mpr (hgreatest next hin))
    exact hnot (hback last hmem next hnext hwhere (hsame.trans hwhere) hover hholds)
  · have hlast : last ∈ ops.live location :=
      mem_live_iff.mpr ⟨hmem, hwhere, hwrites last hmem hwhere, hoverwritten⟩
    rw [hlive, Finset.mem_singleton] at hlast
    exact hnot (hlast ▸ hop)

end Read

section Write

variable [DecidableEq val] {ops : OpSet loc val} {id : ℕ} {location other : loc} {value : Option val}
  {op : Op loc val}

theorem mem_write_iff : op ∈ ops.write id location value ↔
    op = ⟨id, location, value, (ops.live location).image Op.id⟩ ∨ op ∈ ops :=
  Finset.mem_insert

theorem subset_write : ops ⊆ ops.write id location value :=
  Finset.subset_insert _ _

theorem live_write_of_ne (hne : location ≠ other) :
    (ops.write id location value).live other = ops.live other :=
  live_insert_of_ne hne

theorem live_write_subset : (ops.write id location value).live location ⊆
    {⟨id, location, value, (ops.live location).image Op.id⟩} :=
  live_insert_subset (fun _ hlive => Finset.mem_image_of_mem Op.id hlive) rfl

/-- A deletion leaves nothing to be shown. -/
theorem live_write_none : (ops.write id location none).live location = ∅ := by
  rw [Finset.eq_empty_iff_forall_notMem]
  intro op hlive
  obtain rfl := Finset.mem_singleton.mp (live_write_subset hlive)
  exact (mem_live_iff.mp hlive).2.2.1 rfl

/-- A write is all that is live after it. -/
theorem live_write_some (horderly : ops.Orderly) (hlater : ∀ op ∈ ops, op.id < id) {value : val} :
    (ops.write id location (some value)).live location =
      {⟨id, location, some value, (ops.live location).image Op.id⟩} := by
  refine Finset.Subset.antisymm live_write_subset (Finset.singleton_subset_iff.mpr ?_)
  refine mem_live_iff.mpr ⟨mem_write_iff.mpr (.inl rfl), rfl, nofun, ?_⟩
  intro ⟨other, hother, _, hover⟩
  rcases mem_write_iff.mp hother with rfl | hother
  · obtain ⟨before, hbefore, heq⟩ := Finset.mem_image.mp hover
    exact absurd heq (Nat.ne_of_lt (hlater before (mem_of_mem_live hbefore)))
  · exact absurd ((horderly.earlier other hother id hover).trans (hlater other hother))
      (lt_irrefl id)

theorem Orderly.write (horderly : ops.Orderly) (hlater : ∀ op ∈ ops, op.id < id) :
    (ops.write id location value).Orderly where
  uniqueIds := by
    intro first hfirst second hsecond hid
    rcases mem_write_iff.mp hfirst with rfl | hfirst <;>
      rcases mem_write_iff.mp hsecond with rfl | hsecond
    · rfl
    · exact absurd hid.symm (Nat.ne_of_lt (hlater second hsecond))
    · exact absurd hid (Nat.ne_of_lt (hlater first hfirst))
    · exact horderly.uniqueIds first hfirst second hsecond hid
  earlier := by
    intro op hop old hover
    rcases mem_write_iff.mp hop with rfl | hop
    · obtain ⟨before, hbefore, rfl⟩ := Finset.mem_image.mp hover
      exact hlater before (mem_of_mem_live hbefore)
    · exact horderly.earlier op hop old hover

end Write

/-! ## Actors -/

section Actors

variable {loc : Type u} {val : Type v} {actors : ℕ} (actor : Fin actors)

/-- The id of the next operation of an actor. -/
def freshId (ops : OpSet loc val) : ℕ :=
  ((ops.sup fun op => op.id / actors) + 1) * actors + actor

theorem lt_freshId {ops : OpSet loc val} {op : Op loc val} (hop : op ∈ ops) :
    op.id < freshId actor ops := by
  have hcounter : op.id / actors ≤ ops.sup fun op => op.id / actors :=
    Finset.le_sup (f := fun op : Op loc val => op.id / actors) hop
  have hactors : 0 < actors := actor.pos
  calc op.id < (op.id / actors + 1) * actors := by
        rw [Nat.mul_comm]
        exact Nat.lt_mul_div_succ op.id hactors
    _ ≤ ((ops.sup fun op => op.id / actors) + 1) * actors :=
        Nat.mul_le_mul_right actors (Nat.succ_le_succ hcounter)
    _ ≤ freshId actor ops := Nat.le_add_right _ _

theorem freshId_mod (ops : OpSet loc val) : freshId actor ops % actors = actor := by
  rw [freshId, Nat.mul_add_mod_self_right, Nat.mod_eq_of_lt actor.isLt]

/-- What an actor makes of a document, operation after operation, each one of those that
are allowed where it is made. -/
inductive WrittenBy [DecidableEq loc] [DecidableEq val]
    (allowed : OpSet loc val → loc → Option val → Prop) (start : OpSet loc val) :
    OpSet loc val → Prop
  | start : WrittenBy allowed start start
  | write {ops : OpSet loc val} {location : loc} {value : Option val}
      (hwritten : WrittenBy allowed start ops) (hallowed : allowed ops location value) :
      WrittenBy allowed start (ops.write (freshId actor ops) location value)

/-- Every actor has all operations with its ids. -/
def Owned (docs : Fin actors → OpSet loc val) : Prop :=
  ∀ holder, ∀ op ∈ docs holder, ∃ owner : Fin actors, op.id % actors = owner ∧ op ∈ docs owner

variable {actor} {docs : Fin actors → OpSet loc val}

/-- An actor that makes operations with its own ids keeps what it owns. -/
theorem Owned.update (howned : Owned docs) {ops : OpSet loc val} (hsubset : docs actor ⊆ ops)
    (hnew : ∀ op ∈ ops, op ∈ docs actor ∨ op.id % actors = actor) :
    Owned (Function.update docs actor ops) := by
  have hkeeps : ∀ owner, ∀ op ∈ docs owner, op ∈ Function.update docs actor ops owner := by
    intro owner op hop
    by_cases heq : owner = actor
    · subst heq
      rw [Function.update_self]
      exact hsubset hop
    · rwa [Function.update_of_ne heq]
  intro holder op hop
  have hcases : (∃ holder, op ∈ docs holder) ∨ op ∈ ops ∧ op.id % actors = actor := by
    by_cases heq : holder = actor
    · subst heq
      rw [Function.update_self] at hop
      exact (hnew op hop).imp (fun hold => ⟨holder, hold⟩) fun hmod => ⟨hop, hmod⟩
    · rw [Function.update_of_ne heq] at hop
      exact .inl ⟨holder, hop⟩
  rcases hcases with ⟨holder, hold⟩ | ⟨hop, hmod⟩
  · obtain ⟨owner, hmod, howner⟩ := howned holder op hold
    exact ⟨owner, hmod, hkeeps owner op howner⟩
  · exact ⟨actor, hmod, by rwa [Function.update_self]⟩

/-- A merge passes operations on. -/
theorem Owned.merge [DecidableEq loc] [DecidableEq val] (howned : Owned docs)
    (into source : Fin actors) : Owned (Function.update docs into (docs into ∪ docs source)) := by
  have hkeeps : ∀ owner, docs owner ⊆
      Function.update docs into (docs into ∪ docs source) owner := by
    intro owner
    by_cases heq : owner = into
    · subst heq
      rw [Function.update_self]
      exact Finset.subset_union_left
    · rw [Function.update_of_ne heq]
  intro holder op hop
  have hold : ∃ holder, op ∈ docs holder := by
    by_cases heq : holder = into
    · subst heq
      rw [Function.update_self] at hop
      exact (Finset.mem_union.mp hop).elim (fun h => ⟨_, h⟩) fun h => ⟨_, h⟩
    · rw [Function.update_of_ne heq] at hop
      exact ⟨holder, hop⟩
  obtain ⟨holder, hold⟩ := hold
  obtain ⟨owner, hmod, howner⟩ := howned holder op hold
  exact ⟨owner, hmod, hkeeps owner howner⟩

namespace WrittenBy

variable [DecidableEq loc] [DecidableEq val] {actor : Fin actors}
  {allowed : OpSet loc val → loc → Option val → Prop} {start ops : OpSet loc val}

theorem subset (hwritten : WrittenBy actor allowed start ops) : start ⊆ ops := by
  induction hwritten with
  | start => exact Finset.Subset.refl _
  | write _ _ ih => exact ih.trans subset_write

/-- What is new is the actor's own and later than all that was there. -/
theorem mem_or_new (hwritten : WrittenBy actor allowed start ops) {op : Op loc val}
    (hop : op ∈ ops) :
    op ∈ start ∨ op.id % actors = actor ∧ ∀ other ∈ start, other.id < op.id := by
  induction hwritten with
  | start => exact .inl hop
  | @write ops location value hwritten _ ih =>
      rcases mem_write_iff.mp hop with rfl | hop
      · exact .inr ⟨freshId_mod actor ops, fun other hother =>
          lt_freshId actor (hwritten.subset hother)⟩
      · exact ih hop

/-- What every allowed operation keeps, all of them keep. -/
theorem induct {holds : OpSet loc val → Prop} (hwritten : WrittenBy actor allowed start ops)
    (hstart : holds start)
    (hwrite : ∀ ops location value, holds ops → allowed ops location value →
      WrittenBy actor allowed start ops →
      holds (ops.write (freshId actor ops) location value)) : holds ops := by
  induction hwritten with
  | start => exact hstart
  | write hwritten hallowed ih => exact hwrite _ _ _ ih hallowed hwritten

/-- One part after another. -/
theorem trans {first final : OpSet loc val} {later : OpSet loc val → loc → Option val → Prop}
    (hfirst : WrittenBy actor allowed start first) (hlater : WrittenBy actor later first final)
    (hmono : ∀ ops location value, first ⊆ ops → later ops location value →
      allowed ops location value) : WrittenBy actor allowed start final := by
  induction hlater with
  | start => exact hfirst
  | write hwritten hallowed ih => exact .write ih (hmono _ _ _ hwritten.subset hallowed)

/-- The ids are ones that nobody had. -/
theorem written {docs : Fin actors → OpSet loc val} (howned : Owned docs)
    (hwritten : WrittenBy actor allowed (docs actor) ops) :
    Written (fun _ _ => True) (fun id => ∃ owner, ∃ op ∈ docs owner, op.id = id)
      (docs actor) ops := by
  induction hwritten with
  | start => exact .start
  | @write ops location value hwritten _ ih =>
      refine .write ih trivial ?_ fun other hother => lt_freshId actor hother
      intro ⟨holder, op, hop, hid⟩
      obtain ⟨owner, hmod, howner⟩ := howned holder op hop
      rw [hid, freshId_mod] at hmod
      obtain rfl : actor = owner := Fin.ext hmod
      exact absurd hid (Nat.ne_of_lt (lt_freshId actor (hwritten.subset howner)))

end WrittenBy

end Actors

end OpSet

end Backstitch
