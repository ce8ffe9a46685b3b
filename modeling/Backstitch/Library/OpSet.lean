/-
# Documents as sets of operations

A replicated document is the set of operations its owner has seen.  An operation
writes or deletes at one location, and names the operations there that it
overwrites.  Merging is union, so what a location shows depends on the operations
at that location alone: where one side already knows everything the other did
there, a merge shows what that side showed.

A location with a single value shows the live operation with the greatest id; a
location that collects occurrences shows as many as there are live operations.
-/

import Mathlib.Data.Finset.Card
import Mathlib.Data.Finset.Max
import Mathlib.Data.Finset.Union
import Mathlib.Order.Basic

namespace Backstitch

universe u v w

/-- An operation: a write of `value`, or a deletion. -/
structure Op (loc : Type u) (val : Type v) where
  id : ℕ
  location : loc
  value : Option val
  overwrites : Finset ℕ
  deriving DecidableEq

/-- The operations that the owner of a document has seen. -/
abbrev OpSet (loc : Type u) (val : Type v) := Finset (Op loc val)

namespace OpSet

variable {loc : Type u} {val : Type v} [DecidableEq loc]

/-- A later operation at the same location has overwritten this one. -/
def Overwritten (ops : OpSet loc val) (op : Op loc val) : Prop :=
  ∃ other ∈ ops, other.location = op.location ∧ op.id ∈ other.overwrites

instance (ops : OpSet loc val) (op : Op loc val) : Decidable (ops.Overwritten op) :=
  inferInstanceAs (Decidable (∃ other ∈ ops, _))

/-- The writes at a location that nothing has overwritten. -/
def live (ops : OpSet loc val) (location : loc) : OpSet loc val :=
  ops.filter fun op => op.location = location ∧ op.value ≠ none ∧ ¬ ops.Overwritten op

/-- This operation is the one whose value the location shows. -/
def Wins (ops : OpSet loc val) (location : loc) (op : Op loc val) : Prop :=
  op ∈ ops.live location ∧ ∀ other ∈ ops.live location, other.id ≤ op.id

instance [DecidableEq val] (ops : OpSet loc val) (location : loc) (op : Op loc val) :
    Decidable (ops.Wins location op) :=
  inferInstanceAs (Decidable (_ ∧ _))

/-- No two operations of a document share an id. -/
def UniqueIds (ops : OpSet loc val) : Prop :=
  ∀ first ∈ ops, ∀ second ∈ ops, first.id = second.id → first = second

/-- Everything the document has at a location is in another one. -/
def KnownAt (ops more : OpSet loc val) (location : loc) : Prop :=
  ∀ op ∈ ops, op.location = location → op ∈ more

section Live

variable {ops more : OpSet loc val} {location : loc} {op : Op loc val}

theorem mem_live_iff : op ∈ ops.live location ↔
    op ∈ ops ∧ op.location = location ∧ op.value ≠ none ∧ ¬ ops.Overwritten op :=
  Finset.mem_filter

theorem mem_of_mem_live (hop : op ∈ ops.live location) : op ∈ ops :=
  (mem_live_iff.mp hop).1

theorem location_of_mem_live (hop : op ∈ ops.live location) : op.location = location :=
  (mem_live_iff.mp hop).2.1

/-- An operation that survives a merge was live on the side it came from. -/
theorem mem_live_of_subset (hsubset : ops ⊆ more) (hop : op ∈ ops)
    (hlive : op ∈ more.live location) : op ∈ ops.live location := by
  obtain ⟨-, hlocation, hvalue, hkept⟩ := mem_live_iff.mp hlive
  refine mem_live_iff.mpr ⟨hop, hlocation, hvalue, fun ⟨other, hother, hover⟩ => ?_⟩
  exact hkept ⟨other, hsubset hother, hover⟩

/-- With unique ids a location shows one operation at most. -/
theorem Wins.unique {other : Op loc val} (hunique : ops.UniqueIds)
    (hop : ops.Wins location op) (hother : ops.Wins location other) : op = other :=
  hunique op (mem_of_mem_live hop.1) other (mem_of_mem_live hother.1)
    (le_antisymm (hother.2 op hop.1) (hop.2 other hother.1))

/-- A location with something live shows something. -/
theorem exists_wins (hlive : (ops.live location).Nonempty) : ∃ op, ops.Wins location op := by
  obtain ⟨op, hop, hgreatest⟩ := (ops.live location).exists_max_image Op.id hlive
  exact ⟨op, hop, hgreatest⟩

variable [DecidableEq val]

/-- **A merge shows at a location what the side showed that knows everything the
other side did there.** -/
theorem live_union (hknown : more.KnownAt ops location) :
    (ops ∪ more).live location = ops.live location := by
  ext op
  constructor
  · intro hlive
    obtain ⟨hmem, hlocation, -⟩ := mem_live_iff.mp hlive
    have hop : op ∈ ops := by
      rcases Finset.mem_union.mp hmem with hop | hop
      · exact hop
      · exact hknown op hop hlocation
    exact mem_live_of_subset Finset.subset_union_left hop hlive
  · intro hlive
    obtain ⟨hop, hlocation, hvalue, hkept⟩ := mem_live_iff.mp hlive
    refine mem_live_iff.mpr ⟨Finset.mem_union_left _ hop, hlocation, hvalue, ?_⟩
    intro ⟨other, hother, hsame, hover⟩
    refine hkept ⟨other, ?_, hsame, hover⟩
    rcases Finset.mem_union.mp hother with hother | hother
    · exact hother
    · exact hknown other hother (hsame.trans hlocation)

/-- A document that has nothing more at a location shows the same there. -/
theorem live_eq_of_subset (hsubset : ops ⊆ more) (hknown : more.KnownAt ops location) :
    more.live location = ops.live location := by
  rw [← Finset.union_eq_right.mpr hsubset, live_union hknown]

theorem wins_union (hknown : more.KnownAt ops location) :
    (ops ∪ more).Wins location op ↔ ops.Wins location op := by
  rw [Wins, Wins, live_union hknown]

/-- An operation elsewhere changes nothing at a location. -/
theorem live_insert_of_ne (hne : op.location ≠ location) :
    (insert op ops).live location = ops.live location := by
  have hunion : insert op ops = ops ∪ {op} := by
    rw [Finset.union_comm, Finset.insert_eq]
  rw [hunion]
  refine live_union fun other hother hlocation => ?_
  rw [Finset.mem_singleton] at hother
  exact absurd (hother ▸ hlocation) hne

/-- An operation that overwrites everything live is all that can be live after it. -/
theorem live_insert_subset (hover : ∀ other ∈ ops.live location, other.id ∈ op.overwrites)
    (hlocation : op.location = location) : (insert op ops).live location ⊆ {op} := by
  intro other hother
  obtain ⟨hmem, hsame, hvalue, hkept⟩ := mem_live_iff.mp hother
  rcases Finset.mem_insert.mp hmem with rfl | hmem
  · exact Finset.mem_singleton_self _
  · have hlive := mem_live_of_subset (Finset.subset_insert op ops) hmem hother
    exact absurd ⟨op, Finset.mem_insert_self op ops, hlocation.trans hsame.symm,
      hover other hlive⟩ hkept

end Live

variable [DecidableEq val]

/-! ## One writer -/

/-- What one client adds to its own document, operation after operation: every id
is greater than those it has seen and used by nobody else, and every operation is
one that the document allows. -/
inductive Written (allowed : OpSet loc val → Op loc val → Prop) (used : ℕ → Prop)
    (start : OpSet loc val) : OpSet loc val → Prop
  | start : Written allowed used start start
  | write {ops : OpSet loc val} {op : Op loc val} (hwritten : Written allowed used start ops)
      (hallowed : allowed ops op) (hfresh : ¬ used op.id)
      (hlater : ∀ other ∈ ops, other.id < op.id) :
      Written allowed used start (insert op ops)

namespace Written

variable {allowed : OpSet loc val → Op loc val → Prop} {used : ℕ → Prop}
  {start ops : OpSet loc val}

theorem subset (hwritten : Written allowed used start ops) : start ⊆ ops := by
  induction hwritten with
  | start => exact Finset.Subset.refl _
  | write _ _ _ _ ih => exact ih.trans (Finset.subset_insert _ _)

/-- Whatever is new carries an id that nobody had used. -/
theorem not_used (hwritten : Written allowed used start ops) {op : Op loc val}
    (hop : op ∈ ops) (hnew : op ∉ start) : ¬ used op.id := by
  induction hwritten with
  | start => exact absurd hop hnew
  | write _ _ hfresh _ ih =>
      rcases Finset.mem_insert.mp hop with rfl | hop
      · exact hfresh
      · exact ih hop

theorem uniqueIds (hwritten : Written allowed used start ops) (hunique : start.UniqueIds) :
    ops.UniqueIds := by
  induction hwritten with
  | start => exact hunique
  | write _ _ _ hlater ih =>
      intro first hfirst second hsecond hid
      rcases Finset.mem_insert.mp hfirst with heqFirst | holdFirst
      · rcases Finset.mem_insert.mp hsecond with heqSecond | holdSecond
        · exact heqFirst.trans heqSecond.symm
        · exact absurd (heqFirst ▸ hid.symm) (Nat.ne_of_lt (hlater second holdSecond))
      · rcases Finset.mem_insert.mp hsecond with heqSecond | holdSecond
        · exact absurd (heqSecond ▸ hid) (Nat.ne_of_lt (hlater first holdFirst))
        · exact ih first holdFirst second holdSecond hid

/-- What every allowed operation preserves, all of them together preserve. -/
theorem induct {invariant : OpSet loc val → Prop} (hwritten : Written allowed used start ops)
    (hstart : invariant start)
    (hstep : ∀ ops op, invariant ops → allowed ops op → (∀ other ∈ ops, other.id < op.id) →
      invariant (insert op ops)) : invariant ops := by
  induction hwritten with
  | start => exact hstart
  | write _ hallowed _ hlater ih => exact hstep _ _ ih hallowed hlater

end Written

/-! ## Many writers -/

section Clients

variable {client : Type w}

/-- No two operations anywhere share an id. -/
def GloballyUnique (docs : client → OpSet loc val) : Prop :=
  ∀ first second, ∀ op ∈ docs first, ∀ other ∈ docs second, op.id = other.id → op = other

variable {docs : client → OpSet loc val}

omit [DecidableEq loc] [DecidableEq val] in
theorem GloballyUnique.uniqueIds (hunique : GloballyUnique docs) (owner : client) :
    (docs owner).UniqueIds :=
  fun first hfirst second hsecond => hunique owner owner first hfirst second hsecond

variable [DecidableEq client]

/-- A merge only passes operations on. -/
theorem GloballyUnique.merge (hunique : GloballyUnique docs) (into source : client) :
    GloballyUnique (Function.update docs into (docs into ∪ docs source)) := by
  have horigin : ∀ owner, ∀ op ∈ Function.update docs into (docs into ∪ docs source) owner,
      ∃ found, op ∈ docs found := by
    intro owner op hop
    by_cases heq : owner = into
    · rw [heq, Function.update_self] at hop
      rcases Finset.mem_union.mp hop with hop | hop
      · exact ⟨into, hop⟩
      · exact ⟨source, hop⟩
    · rw [Function.update_of_ne heq] at hop
      exact ⟨owner, hop⟩
  intro first second op hop other hother hid
  obtain ⟨foundFirst, hop⟩ := horigin first op hop
  obtain ⟨foundSecond, hother⟩ := horigin second other hother
  exact hunique foundFirst foundSecond op hop other hother hid

/-- The operations a client adds get ids that nobody has. -/
theorem GloballyUnique.write {allowed : OpSet loc val → Op loc val → Prop}
    (hunique : GloballyUnique docs) {writer : client} {ops : OpSet loc val}
    (hwritten : Written allowed (fun id => ∃ owner, ∃ op ∈ docs owner, op.id = id)
      (docs writer) ops) :
    GloballyUnique (Function.update docs writer ops) := by
  have hops := hwritten.uniqueIds (hunique.uniqueIds writer)
  have hcross : ∀ op ∈ ops, ∀ owner, ∀ other ∈ docs owner, op.id = other.id → op = other := by
    intro op hop owner other hother hid
    by_cases hold : op ∈ docs writer
    · exact hunique writer owner op hold other hother hid
    · exact absurd ⟨owner, other, hother, hid.symm⟩ (hwritten.not_used hop hold)
  intro first second op hop other hother hid
  by_cases hfirst : first = writer
  · rw [hfirst, Function.update_self] at hop
    by_cases hsecond : second = writer
    · rw [hsecond, Function.update_self] at hother
      exact hops op hop other hother hid
    · rw [Function.update_of_ne hsecond] at hother
      exact hcross op hop second other hother hid
  · rw [Function.update_of_ne hfirst] at hop
    by_cases hsecond : second = writer
    · rw [hsecond, Function.update_self] at hother
      exact (hcross other hother first op hop hid.symm).symm
    · rw [Function.update_of_ne hsecond] at hother
      exact hunique first second op hop other hother hid

end Clients

end OpSet

end Backstitch
