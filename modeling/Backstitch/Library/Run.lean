/-
# Runs of partial programs

A function of the source may return a value, return an error, panic, or never
come back.  `Run` keeps the four apart, so that a statement about a returned
value never holds by default of a call that panics or loops.

A loop without an obvious measure is written with a fuel argument; `running`
is what such a definition answers when the fuel is spent.  A call therefore
returns exactly when some amount of fuel makes it `done`.
-/

import Mathlib.Data.List.Forall2
import Mathlib.Data.Option.Basic
import Mathlib.Tactic.Common

namespace Backstitch

universe u v

/-! ## Lists that are related item by item -/

section Related

variable {α : Type u} {β : Type v} {related : α → β → Prop} {items : List α} {results : List β}

theorem exists_of_mem_right (hall : List.Forall₂ related items results) {result : β}
    (hresult : result ∈ results) : ∃ item ∈ items, related item result := by
  induction hall with
  | nil => nomatch hresult
  | @cons item _ _ _ hfirst _ ih =>
      rcases List.mem_cons.mp hresult with rfl | hrest
      · exact ⟨item, List.mem_cons_self, hfirst⟩
      · obtain ⟨found, hfound, hrelated⟩ := ih hrest
        exact ⟨found, List.mem_cons_of_mem item hfound, hrelated⟩

theorem exists_of_mem_left (hall : List.Forall₂ related items results) {item : α}
    (hitem : item ∈ items) : ∃ result ∈ results, related item result :=
  exists_of_mem_right hall.flip hitem

end Related

/-! ## Outcomes -/

/-- The outcome of running a piece of the source. -/
inductive Run (α : Type u)
  /-- The call returned. -/
  | done (value : α)
  /-- The call returned an error with this message. -/
  | fail (message : String)
  /-- The call panicked. -/
  | panic
  /-- The call has not returned. -/
  | running
  deriving DecidableEq

namespace Run

variable {α : Type u} {β : Type v}

/-- Sequencing stops at the first call that does not return a value. -/
protected def bind (run : Run α) (next : α → Run β) : Run β :=
  match run with
  | .done value => next value
  | .fail message => .fail message
  | .panic => .panic
  | .running => .running

instance : Monad Run where
  pure := .done
  bind := Run.bind

@[simp]
theorem pure_eq_done (value : α) : (pure value : Run α) = .done value := rfl

@[simp]
theorem done_bind {α β : Type u} (value : α) (next : α → Run β) :
    (Run.done value >>= next) = next value := rfl

@[simp]
theorem fail_bind {α β : Type u} (message : String) (next : α → Run β) :
    ((Run.fail message : Run α) >>= next) = .fail message := rfl

@[simp]
theorem panic_bind {α β : Type u} (next : α → Run β) :
    ((Run.panic : Run α) >>= next) = .panic := rfl

@[simp]
theorem running_bind {α β : Type u} (next : α → Run β) :
    ((Run.running : Run α) >>= next) = .running := rfl

theorem bind_eq_done_iff {α β : Type u} {run : Run α} {next : α → Run β} {result : β} :
    (run >>= next) = .done result ↔
      ∃ value, run = .done value ∧ next value = .done result := by
  cases run <;> simp

instance : LawfulMonad Run :=
  LawfulMonad.mk' Run
    (by intro α run; cases run <;> rfl)
    (by intro α β value next; rfl)
    (by intro α β γ run next rest; cases run <;> rfl)

/-- A fold returns exactly when every step of it does: the first step returns
an accumulator from which the rest returns. -/
theorem foldlM_cons_eq_done_iff {α β : Type u} {step : β → α → Run β} {start finish : β}
    {item : α} {items : List α} :
    (item :: items).foldlM step start = .done finish ↔
      ∃ middle, step start item = .done middle ∧
        items.foldlM step middle = .done finish := by
  rw [List.foldlM_cons, bind_eq_done_iff]

/-- What every step of a fold preserves, the fold preserves. -/
theorem foldlM_induct {α β : Type u} {step : β → α → Run β} {invariant : β → Prop}
    {items : List α} {start finish : β} (hdone : items.foldlM step start = .done finish)
    (hstart : invariant start)
    (hstep : ∀ state item next, item ∈ items → invariant state →
      step state item = .done next → invariant next) : invariant finish := by
  induction items generalizing start with
  | nil =>
      cases hdone
      exact hstart
  | cons item items ih =>
      obtain ⟨middle, hfirst, hrest⟩ := foldlM_cons_eq_done_iff.mp hdone
      apply ih hrest (hstep start item middle (by simp) hstart hfirst)
      intro state later next hlater
      exact hstep state later next (List.mem_cons_of_mem _ hlater)

/-- A traversal returns exactly when every item does. -/
theorem mapM_eq_done_iff {α β : Type u} {f : α → Run β} {items : List α}
    {results : List β} :
    items.mapM f = .done results ↔
      List.Forall₂ (fun item result => f item = .done result) items results := by
  induction items generalizing results with
  | nil =>
      rw [List.mapM_nil, pure_eq_done]
      constructor
      · rintro ⟨rfl⟩
        exact .nil
      · rintro ⟨⟩
        rfl
  | cons item items ih =>
      rw [List.mapM_cons, bind_eq_done_iff]
      constructor
      · rintro ⟨first, hfirst, hrest⟩
        obtain ⟨rest, hitems, hresult⟩ := bind_eq_done_iff.mp hrest
        cases hresult
        exact .cons hfirst (ih.mp hitems)
      · rintro (_ | ⟨hfirst, hrest⟩)
        exact ⟨_, hfirst, bind_eq_done_iff.mpr ⟨_, ih.mpr hrest, rfl⟩⟩

/-- A traversal whose items all return, each with its own value. -/
theorem mapM_eq_done_map {α β : Type u} {f : α → Run β} {value : α → β} {items : List α}
    (hitems : ∀ item ∈ items, f item = .done (value item)) :
    items.mapM f = .done (items.map value) := by
  rw [mapM_eq_done_iff, List.forall₂_map_right_iff, List.forall₂_same]
  exact hitems

/-- In a traversal that returned, every item returned. -/
theorem exists_of_mapM_done {α β : Type u} {f : α → Run β} {items : List α}
    {results : List β} (hdone : items.mapM f = .done results) {item : α}
    (hitem : item ∈ items) : ∃ result ∈ results, f item = .done result :=
  exists_of_mem_left (mapM_eq_done_iff.mp hdone) hitem

/-- What holds of every item and its result holds along a traversal. -/
theorem forall₂_of_mapM_done {α β : Type u} {f : α → Run β} {related : α → β → Prop}
    {items : List α} {results : List β} (hdone : items.mapM f = .done results)
    (hrelated : ∀ item ∈ items, ∀ result, f item = .done result → related item result) :
    List.Forall₂ related items results := by
  rw [mapM_eq_done_iff] at hdone
  induction hdone with
  | nil => exact .nil
  | @cons item result items results hitem _ ih =>
      obtain ⟨hfirst, hrest⟩ := List.forall_mem_cons.mp hrelated
      exact .cons (hfirst result hitem) (ih hrest)

/-- Every result of a traversal is the result of an item. -/
theorem exists_of_mem_mapM {α β : Type u} {f : α → Run β} {items : List α}
    {results : List β} (hdone : items.mapM f = .done results) {result : β}
    (hresult : result ∈ results) : ∃ item ∈ items, f item = .done result :=
  exists_of_mem_right (mapM_eq_done_iff.mp hdone) hresult

/-- What holds between two items in order holds between their results. -/
theorem pairwise_of_mapM_done {α β : Type u} {f : α → Run β} {between : α → α → Prop}
    {related : β → β → Prop} {items : List α} {results : List β}
    (hdone : items.mapM f = .done results) (hitems : items.Pairwise between)
    (hrelated : ∀ first ∈ items, ∀ second ∈ items, between first second →
      ∀ one two, f first = .done one → f second = .done two → related one two) :
    results.Pairwise related := by
  induction items generalizing results with
  | nil =>
      cases hdone
      exact .nil
  | cons first items ih =>
      rw [mapM_eq_done_iff, List.forall₂_cons_left_iff] at hdone
      obtain ⟨one, rest, hfirst, hrest, rfl⟩ := hdone
      rw [← mapM_eq_done_iff] at hrest
      obtain ⟨hbetween, hitems⟩ := List.pairwise_cons.mp hitems
      apply List.pairwise_cons.mpr
      constructor
      · intro two htwo
        obtain ⟨second, hsecond, hdone⟩ := exists_of_mem_mapM hrest htwo
        exact hrelated first (by simp) second (by simp [hsecond]) (hbetween second hsecond)
          one two hfirst hdone
      · apply ih hrest hitems
        intro earlier hearlier later hlater
        exact hrelated earlier (by simp [hearlier]) later (by simp [hlater])

/-- A fold that came back is the same fold with steps that agree where the first
ones come back. -/
theorem foldlM_mono {α β : Type u} {step more : β → α → Run β} {items : List α} {start : β}
    (hends : items.foldlM step start ≠ .running)
    (hmono : ∀ state item, step state item ≠ .running → more state item = step state item) :
    items.foldlM more start = items.foldlM step start := by
  induction items generalizing start with
  | nil => rfl
  | cons item items ih =>
      rw [List.foldlM_cons] at hends
      rw [List.foldlM_cons, List.foldlM_cons]
      have hfirst : step start item ≠ .running := fun hrunning =>
        hends (by rw [hrunning, running_bind])
      rw [hmono start item hfirst]
      cases hstep : step start item with
      | done middle =>
          rw [hstep, done_bind] at hends
          exact ih hends
      | fail message => rfl
      | panic => rfl
      | running => exact absurd hstep hfirst

/-- An invariant that speaks of the items already passed. -/
theorem foldlM_prefix_induct {α β : Type u} {step : β → α → Run β}
    {invariant : List α → β → Prop} {items : List α} {start finish : β}
    (hdone : items.foldlM step start = .done finish) (hstart : invariant [] start)
    (hstep : ∀ before item after state next, items = before ++ item :: after →
      invariant before state → step state item = .done next →
      invariant (before ++ [item]) next) : invariant items finish := by
  suffices hgeneral : ∀ before after state, items = before ++ after → invariant before state →
      after.foldlM step state = .done finish → invariant items finish from
    hgeneral [] items start rfl hstart hdone
  intro before after
  induction after generalizing before with
  | nil =>
      intro state hitems hstate hrest
      cases hrest
      rwa [hitems, List.append_nil]
  | cons item after ih =>
      intro state hitems hstate hrest
      obtain ⟨next, hfirst, hrest⟩ := foldlM_cons_eq_done_iff.mp hrest
      apply ih (before ++ [item]) next
      · rw [hitems, List.append_assoc, List.singleton_append]
      · exact hstep before item after state next hitems hstate hfirst
      · exact hrest

/-- A fold of which every step returns, as long as an invariant holds, returns. -/
theorem exists_foldlM_done {α β : Type u} {step : β → α → Run β} {invariant : List α → β → Prop}
    {items : List α} {start : β} (hstart : invariant [] start)
    (hstep : ∀ before item after state, items = before ++ item :: after →
      invariant before state →
      ∃ next, step state item = .done next ∧ invariant (before ++ [item]) next) :
    ∃ finish, items.foldlM step start = .done finish ∧ invariant items finish := by
  suffices hgeneral : ∀ before after state, items = before ++ after → invariant before state →
      ∃ finish, after.foldlM step state = .done finish ∧ invariant items finish from
    hgeneral [] items start rfl hstart
  intro before after
  induction after generalizing before with
  | nil =>
      intro state hitems hstate
      rw [hitems, List.append_nil]
      exact ⟨state, rfl, hstate⟩
  | cons item after ih =>
      intro state hitems hstate
      obtain ⟨next, hnext, hinvariant⟩ := hstep before item after state hitems hstate
      have hlater : items = (before ++ [item]) ++ after := by
        rw [hitems, List.append_assoc, List.singleton_append]
      obtain ⟨finish, hfinish, hend⟩ := ih (before ++ [item]) next hlater hinvariant
      exact ⟨finish, foldlM_cons_eq_done_iff.mpr ⟨next, hnext, hfinish⟩, hend⟩

/-- A traversal returns the same when each item does. -/
theorem mapM_done_mono {α β : Type u} {f g : α → Run β} {items : List α}
    {results : List β} (hdone : items.mapM f = .done results)
    (hmono : ∀ item ∈ items, ∀ result, f item = .done result → g item = .done result) :
    items.mapM g = .done results := by
  rw [mapM_eq_done_iff] at hdone ⊢
  induction hdone with
  | nil => exact .nil
  | cons hhead _ ih =>
      refine .cons (hmono _ (by simp) _ hhead) (ih fun item hitem => ?_)
      exact hmono item (List.mem_cons_of_mem _ hitem)

/-- If every item returns with some fuel, and more fuel changes nothing, one
amount of fuel does for the whole traversal. -/
theorem exists_mapM_done {α β : Type u} {f : ℕ → α → Run β} {items : List α}
    (hitems : ∀ item ∈ items, ∃ fuel result, f fuel item = .done result)
    (hmono : ∀ fuel more item result, f fuel item = .done result → fuel ≤ more →
      f more item = .done result) :
    ∃ fuel results, items.mapM (f fuel) = .done results := by
  induction items with
  | nil => exact ⟨0, [], rfl⟩
  | cons item items ih =>
      obtain ⟨fuel, first, hfirst⟩ := hitems item (by simp)
      obtain ⟨more, rest, hrest⟩ := ih fun other hother => hitems other (by simp [hother])
      have hfirst : f (max fuel more) item = .done first :=
        hmono _ _ _ _ hfirst (Nat.le_max_left ..)
      have hrest : items.mapM (f (max fuel more)) = .done rest :=
        mapM_done_mono hrest fun _ _ _ hdone =>
          hmono _ _ _ _ hdone (Nat.le_max_right ..)
      refine ⟨max fuel more, first :: rest, ?_⟩
      simp [List.mapM_cons, hfirst, hrest]

/-- Where every item has what it needs from some fuel on, so have all of them together. -/
theorem exists_fuel_forall {α : Type u} {holds : ℕ → α → Prop} {items : List α}
    (hitems : ∀ item ∈ items, ∃ fuel, ∀ more, fuel ≤ more → holds more item) :
    ∃ fuel, ∀ more, fuel ≤ more → ∀ item ∈ items, holds more item := by
  induction items with
  | nil => exact ⟨0, fun _ _ item hitem => absurd hitem List.not_mem_nil⟩
  | cons first items ih =>
      obtain ⟨fuel, hfirst⟩ := hitems first List.mem_cons_self
      obtain ⟨rest, hrest⟩ := ih fun item hitem => hitems item (List.mem_cons_of_mem first hitem)
      refine ⟨max fuel rest, fun more hmore => List.forall_mem_cons.mpr ⟨?_, ?_⟩⟩
      · exact hfirst more (Nat.le_trans (Nat.le_max_left ..) hmore)
      · exact hrest more (Nat.le_trans (Nat.le_max_right ..) hmore)

/-! ## Coming back -/

/-- The call came back, with a value or with an error. -/
def Ends (run : Run α) : Prop := (∃ value, run = .done value) ∨ ∃ message, run = .fail message

@[simp]
theorem ends_done (value : α) : (Run.done value).Ends := .inl ⟨value, rfl⟩

@[simp]
theorem ends_fail (message : String) : (Run.fail message : Run α).Ends := .inr ⟨message, rfl⟩

@[simp]
theorem not_ends_panic : ¬ (Run.panic : Run α).Ends := by simp [Ends]

@[simp]
theorem not_ends_running : ¬ (Run.running : Run α).Ends := by simp [Ends]

theorem Ends.ne_running {run : Run α} (hends : run.Ends) : run ≠ .running := by
  rintro rfl
  exact not_ends_running hends

/-- A sequence comes back when its first part does, and its rest from every value of that. -/
theorem ends_bind_iff {α β : Type u} {run : Run α} {next : α → Run β} :
    (run >>= next).Ends ↔ run.Ends ∧ ∀ value, run = .done value → (next value).Ends := by
  cases run <;> simp

/-- A fold comes back when every step that is reached does. -/
theorem ends_foldlM_iff {α β : Type u} {step : β → α → Run β} {items : List α} {start : β} :
    (items.foldlM step start).Ends ↔
      ∀ before item after state, items = before ++ item :: after →
        before.foldlM step start = .done state → (step state item).Ends := by
  induction items generalizing start with
  | nil => simp
  | cons first items ih =>
      rw [List.foldlM_cons, ends_bind_iff]
      simp only [ih]
      constructor
      · rintro ⟨hfirst, hrest⟩ before item after state hitems hdone
        cases before with
        | nil =>
            cases hdone
            obtain ⟨rfl, -⟩ := List.cons.inj hitems
            exact hfirst
        | cons other before =>
            obtain ⟨rfl, hlater⟩ := List.cons.inj hitems
            obtain ⟨middle, hmiddle, hdone⟩ := foldlM_cons_eq_done_iff.mp hdone
            exact hrest middle hmiddle before item after state hlater hdone
      · intro hall
        refine ⟨hall [] first items start rfl rfl, ?_⟩
        intro middle hmiddle before item after state hitems hdone
        exact hall (first :: before) item after state (by rw [hitems, List.cons_append])
          (foldlM_cons_eq_done_iff.mpr ⟨middle, hmiddle, hdone⟩)

/-- A fold of steps with fuel comes back with some fuel when every step that is reached
does, provided that more fuel changes nothing. -/
theorem exists_ends_foldlM_iff {α β : Type u} {step : ℕ → β → α → Run β} {items : List α}
    {start : β}
    (hmono : ∀ fuel more state item, step fuel state item ≠ .running → fuel ≤ more →
      step more state item = step fuel state item) :
    (∃ fuel, (items.foldlM (step fuel) start).Ends) ↔
      ∀ before item after state, items = before ++ item :: after →
        (∃ fuel, before.foldlM (step fuel) start = .done state) →
        ∃ fuel, (step fuel state item).Ends := by
  have hfold : ∀ {fuel more : ℕ} {inputs : List α} {state : β},
      inputs.foldlM (step fuel) state ≠ .running → fuel ≤ more →
      inputs.foldlM (step more) state = inputs.foldlM (step fuel) state := fun hends hle =>
    foldlM_mono hends fun state item hround => hmono _ _ state item hround hle
  constructor
  · rintro ⟨fuel, hends⟩ before item after state hitems ⟨more, hdone⟩
    refine ⟨fuel, ends_foldlM_iff.mp hends before item after state hitems ?_⟩
    have hleads : before.foldlM (step fuel) start ≠ .running := by
      intro hrunning
      rw [hitems, List.foldlM_append, hrunning, running_bind] at hends
      exact not_ends_running hends
    have hleft := hfold hleads (Nat.le_max_left fuel more)
    have hright := hfold (by rw [hdone]; exact nofun) (Nat.le_max_right fuel more)
    rw [← hleft, hright, hdone]
  · induction items generalizing start with
    | nil => exact fun _ => ⟨0, ends_done start⟩
    | cons first items ih =>
        intro hall
        obtain ⟨fuel, hfirst⟩ := hall [] first items start rfl ⟨0, rfl⟩
        rcases hfirst with ⟨middle, hmiddle⟩ | ⟨message, hmessage⟩
        swap
        · exact ⟨fuel, by rw [List.foldlM_cons, hmessage, fail_bind]; exact ends_fail message⟩
        obtain ⟨more, hrest⟩ := @ih middle fun before item after state hitems hdone => by
          obtain ⟨later, hlater⟩ := hdone
          apply hall (first :: before) item after state (by rw [hitems, List.cons_append])
          refine ⟨max fuel later, foldlM_cons_eq_done_iff.mpr ⟨middle, ?_, ?_⟩⟩
          · rw [hmono fuel _ _ _ (by rw [hmiddle]; exact nofun) (Nat.le_max_left fuel later),
              hmiddle]
          · rw [hfold (by rw [hlater]; exact nofun) (Nat.le_max_right fuel later), hlater]
        refine ⟨max fuel more, ?_⟩
        rw [List.foldlM_cons, hmono fuel _ _ _ (by rw [hmiddle]; exact nofun)
          (Nat.le_max_left fuel more), hmiddle, done_bind,
          hfold hrest.ne_running (Nat.le_max_right fuel more)]
        exact hrest

end Run

end Backstitch
