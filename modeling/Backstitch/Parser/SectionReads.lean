/-
# Reading the sections of a text

The first pass of `parse_scene` reads the attributes of one section after the other.  A section
that lacks an attribute is refused with an error, which ends the pass.  The readers take the form
of a value for granted: a single quotation mark, or an array without its brackets, makes them
panic.
-/

import Backstitch.Parser.ParseTree

namespace Backstitch

/-! ## The attributes of a section -/

/-- How an attribute is read: as a number, as a text that has to be there, as a text, or as an
array of integers. -/
inductive Reading
  | format
  | required (key : String)
  | optional (key : String)
  | array (key : String)

/-- The value does not have the brackets that `parse_int32_array` takes off. -/
def LacksBrackets (value : String) : Prop :=
  (stripPrefix "PackedInt32Array(" value).bind (stripSuffix ")") = none

namespace Section

variable (input : Section)

/-- The attributes that are read from a section, in the order of the source. -/
def readings : List Reading :=
  if input.identifier = "gd_resource" then
    [.format, .optional "script_class", .required "uid", .required "type"]
  else if input.identifier = "resource" then []
  else if input.identifier = "gd_scene" then [.format, .required "uid"]
  else if input.identifier = "node" then
    [.required "name", .optional "instance_placeholder", .array "parent_id_path",
      .array "owner_uid_path",
      .optional (if input.heading "type" = none then "instance" else "type"),
      .optional "node_paths", .optional "parent", .optional "owner", .optional "index"]
  else if input.identifier = "ext_resource" then
    [.required "type", .optional "uid", .required "path", .required "id"]
  else if input.identifier = "sub_resource" then [.required "id", .required "type"]
  else if input.identifier = "connection" then
    [.required "signal", .required "from", .required "to", .required "method",
      .array "from_uid_path", .array "to_uid_path", .optional "binds"]
  else if input.identifier = "editable" then [.required "path"]
  else []

/-- The section is refused because of this attribute. -/
def Refuses : Reading → Prop
  | .format => input.optionalInteger "format" = none
  | .required key => input.heading key = none
  | .optional _ => False
  | .array _ => False

/-- The value is a single quotation mark, or an array without its brackets. -/
def Breaks : Reading → Prop
  | .format => False
  | .required key => input.heading key = some "\""
  | .optional key => input.heading key = some "\""
  | .array key => ∃ value, input.heading key = some value ∧ LacksBrackets value

/-- One of these attributes breaks, and none before it is a reason to refuse the section. -/
def BreaksIn : List Reading → Prop
  | [] => False
  | reading :: rest => input.Breaks reading ∨ ¬ input.Refuses reading ∧ BreaksIn rest

/-- The section holds a value that `parse_scene` panics on. -/
def Malformed : Prop := input.BreaksIn input.readings

end Section

/-- The section holds every value that it needs, in a form that can be read. -/
def Section.Accepted (input : Section) : Prop :=
  ∀ reading ∈ input.readings, ¬ input.Breaks reading ∧ ¬ input.Refuses reading

/-- What a run that reads these attributes, one after the other, can end in. -/
structure Reads {α : Type} (input : Section) (readings : List Reading) (run : Run α) :
    Prop where
  ends_iff : run.Ends ↔ ¬ input.BreaksIn readings
  returns_iff : (∃ value, run = .done value) ↔
    ∀ reading ∈ readings, ¬ input.Breaks reading ∧ ¬ input.Refuses reading

section Reads

variable {α β : Type} {input : Section} {reading : Reading} {rest : List Reading}

theorem Reads.pure (value : α) : Reads input [] (pure value : Run α) := by
  constructor <;> simp [Section.BreaksIn]

/-- Reading one attribute and going on. -/
theorem Reads.bind {run : Run α} {next : α → Run β} (hreads : Reads input [reading] run)
    (hnext : ∀ value, Reads input rest (next value)) :
    Reads input (reading :: rest) (run >>= next) := by
  have hends := hreads.ends_iff
  have hreturns := hreads.returns_iff
  simp only [Section.BreaksIn, and_false, or_false, List.forall_mem_singleton] at hends hreturns
  constructor
  · rw [Run.ends_bind_iff, hends, Section.BreaksIn, not_or, not_and]
    refine and_congr_right fun hbreaks => ?_
    constructor
    · intro hall hrefuses
      obtain ⟨value, hvalue⟩ := hreturns.mpr ⟨hbreaks, hrefuses⟩
      exact (hnext value).ends_iff.mp (hall value hvalue)
    · intro hrest value hvalue
      exact (hnext value).ends_iff.mpr (hrest (hreturns.mp ⟨value, hvalue⟩).2)
  · simp only [Run.bind_eq_done_iff, List.forall_mem_cons]
    constructor
    · rintro ⟨result, value, hvalue, hresult⟩
      exact ⟨hreturns.mp ⟨value, hvalue⟩, (hnext value).returns_iff.mp ⟨result, hresult⟩⟩
    · rintro ⟨hfirst, hrest⟩
      obtain ⟨value, hvalue⟩ := hreturns.mpr hfirst
      obtain ⟨result, hresult⟩ := (hnext value).returns_iff.mpr hrest
      exact ⟨result, value, hvalue, hresult⟩

theorem Reads.map {run : Run α} (hreads : Reads input [reading] run) (f : α → β) :
    Reads input [reading] (f <$> run) := by
  rw [map_eq_pure_bind]
  exact hreads.bind fun value => Reads.pure (f value)

theorem reads_of_done {run : Run α} (hbreaks : ¬ input.Breaks reading)
    (hrefuses : ¬ input.Refuses reading) {value : α} (hdone : run = .done value) :
    Reads input [reading] run := by
  subst hdone
  exact ⟨by simp [Section.BreaksIn, hbreaks], by simp [hbreaks, hrefuses]⟩

theorem reads_of_fail {run : Run α} (hbreaks : ¬ input.Breaks reading)
    (hrefuses : input.Refuses reading) {message : String} (hfail : run = .fail message) :
    Reads input [reading] run := by
  subst hfail
  exact ⟨by simp [Section.BreaksIn, hbreaks], by simp [hrefuses]⟩

theorem reads_of_panic {run : Run α} (hbreaks : input.Breaks reading) (hpanic : run = .panic) :
    Reads input [reading] run := by
  subst hpanic
  exact ⟨by simp [Section.BreaksIn, hbreaks], by simp [hbreaks]⟩

/-- Only a single quotation mark cannot be unquoted. -/
theorem unquote_eq (value : String) :
    (value = "\"" ∧ unquote value = .panic) ∨
      (value ≠ "\"" ∧ ∃ text, unquote value = .done text) := by
  have hmark : value = "\"" ↔ value.toList = ['"'] := String.toList_inj.symm
  rw [Ne, hmark]
  unfold unquote
  split
  · rename_i hlist
    exact .inl ⟨hlist, rfl⟩
  · rename_i hother hlist
    exact .inr ⟨fun heq => hother (List.cons.inj (hlist.symm.trans heq)).2, _, rfl⟩
  · rename_i hother _
    exact .inr ⟨hother, _, rfl⟩

theorem parseInt32Array_eq (value : String) :
    (LacksBrackets value ∧ parseInt32Array value = .panic) ∨
      (¬ LacksBrackets value ∧ ∃ array, parseInt32Array value = .done array) := by
  unfold parseInt32Array LacksBrackets
  split
  · rename_i hnone
    exact .inl ⟨hnone, rfl⟩
  · rename_i inner hsome
    exact .inr ⟨by rw [hsome]; exact nofun, _, rfl⟩

theorem reads_format (place : String) : Reads input [.format] (input.format place) := by
  unfold Section.format
  cases hformat : input.optionalInteger "format" with
  | none => exact reads_of_fail id hformat rfl
  | some format =>
      refine reads_of_done id (fun hnone => ?_) rfl
      nomatch hformat.symm.trans hnone

theorem reads_required (key place : String) :
    Reads input [.required key] (input.required key place) := by
  unfold Section.required
  cases hvalue : input.heading key with
  | none =>
      refine reads_of_fail (fun hmark => ?_) hvalue rfl
      nomatch hvalue.symm.trans hmark
  | some value =>
      dsimp only
      rcases unquote_eq value with ⟨rfl, hpanic⟩ | ⟨hne, text, hdone⟩
      · exact reads_of_panic hvalue hpanic
      · refine reads_of_done (fun hmark => ?_) (fun hnone => ?_) hdone
        · exact hne (Option.some.inj (hvalue.symm.trans hmark))
        · nomatch hvalue.symm.trans hnone

/-- Reading a text that may be missing, and making something of it. -/
theorem reads_unquote (key : String) (f : String → α) (missing : α) :
    Reads input [.optional key] (match input.heading key with
      | some value => f <$> unquote value
      | none => .done missing) := by
  cases hvalue : input.heading key with
  | none =>
      refine reads_of_done (fun hmark => ?_) id rfl
      nomatch hvalue.symm.trans hmark
  | some value =>
      dsimp only
      rcases unquote_eq value with ⟨rfl, hpanic⟩ | ⟨hne, text, hdone⟩
      · have hread : Reads input [.optional key] (unquote "\"") := reads_of_panic hvalue hpanic
        exact hread.map f
      · have hread : Reads input [.optional key] (unquote value) :=
          reads_of_done (fun hmark => hne (Option.some.inj (hvalue.symm.trans hmark))) id hdone
        exact hread.map f

theorem reads_optionalArray (key : String) :
    Reads input [.array key] (input.optionalArray key) := by
  unfold Section.optionalArray
  cases hvalue : input.heading key with
  | none =>
      refine reads_of_done ?_ id rfl
      rintro ⟨value, hsome, -⟩
      nomatch hvalue.symm.trans hsome
  | some value =>
      dsimp only
      rcases parseInt32Array_eq value with ⟨hlacks, hpanic⟩ | ⟨hhas, array, hdone⟩
      · have hread : Reads input [.array key] (parseInt32Array value) :=
          reads_of_panic ⟨value, hvalue, hlacks⟩ hpanic
        exact hread.map some
      · have hread : Reads input [.array key] (parseInt32Array value) := by
          refine reads_of_done ?_ id hdone
          intro ⟨other, hother, hlacks⟩
          obtain rfl := Option.some.inj (hvalue.symm.trans hother)
          exact hhas hlacks
        exact hread.map some

theorem reads_typeOrInstanceOf :
    Reads input [.optional (if input.heading "type" = none then "instance" else "type")]
      (SectionState.typeOrInstanceOf input) := by
  unfold SectionState.typeOrInstanceOf
  cases htype : input.heading "type" with
  | none =>
      dsimp only
      rw [if_pos rfl]
      exact reads_unquote "instance" _ none
  | some typeValue =>
      have hread := @reads_unquote _ input "type" (some ∘ TypeOrInstance.ofType) none
      rw [htype] at hread
      exact hread

end Reads

namespace SectionState

variable {state : SectionState} {input : Section}

/-- What can become of a section. -/
theorem reads_readSection : Reads input input.readings (state.readSection input) := by
  unfold readSection Section.readings
  split
  · exact (reads_format _).bind fun _ => (reads_unquote "script_class" some none).bind fun _ =>
      (reads_required "uid" _).bind fun _ => (reads_required "type" _).bind fun _ => .pure _
  split
  · exact .pure _
  split
  · exact (reads_format _).bind fun _ => (reads_required "uid" _).bind fun _ => .pure _
  split
  · exact (reads_required "name" _).bind fun _ =>
      (reads_unquote "instance_placeholder" some none).bind fun _ =>
      (reads_optionalArray "parent_id_path").bind fun _ =>
      (reads_optionalArray "owner_uid_path").bind fun _ => reads_typeOrInstanceOf.bind fun _ =>
      (reads_unquote "node_paths" some none).bind fun _ =>
      (reads_unquote "parent" some none).bind fun _ =>
      (reads_unquote "owner" some none).bind fun _ =>
      (reads_unquote "index" parseI64 none).bind fun _ => .pure _
  split
  · exact (reads_required "type" _).bind fun _ => (reads_unquote "uid" some none).bind fun _ =>
      (reads_required "path" _).bind fun _ => (reads_required "id" _).bind fun _ => .pure _
  split
  · exact (reads_required "id" _).bind fun _ => (reads_required "type" _).bind fun _ => .pure _
  split
  · exact (reads_required "signal" _).bind fun _ => (reads_required "from" _).bind fun _ =>
      (reads_required "to" _).bind fun _ => (reads_required "method" _).bind fun _ =>
      (reads_optionalArray "from_uid_path").bind fun _ =>
      (reads_optionalArray "to_uid_path").bind fun _ =>
      (reads_unquote "binds" some none).bind fun _ => .pure _
  split
  · exact (reads_required "path" _).bind fun _ => .pure _
  · exact .pure _

/-- The first pass comes to a section when all before it are accepted. -/
theorem exists_foldlM_readSection_iff {sections : List Section} :
    (∃ read, sections.foldlM readSection state = .done read) ↔
      ∀ input ∈ sections, input.Accepted := by
  induction sections generalizing state with
  | nil => simp
  | cons first sections ih =>
      simp only [Run.foldlM_cons_eq_done_iff, List.forall_mem_cons]
      have hfirst : (∃ next, state.readSection first = .done next) ↔ first.Accepted :=
        reads_readSection.returns_iff
      constructor
      · rintro ⟨read, next, hnext, hrest⟩
        exact ⟨hfirst.mp ⟨next, hnext⟩, ih.mp ⟨read, hrest⟩⟩
      · rintro ⟨haccepted, hrest⟩
        obtain ⟨next, hnext⟩ := hfirst.mpr haccepted
        obtain ⟨read, hread⟩ := ih.mpr hrest
        exact ⟨read, next, hnext, hread⟩

end SectionState

/-- No section behind accepted ones holds a value that `parse_scene` panics on. -/
def SectionsEnd (sections : List Section) : Prop :=
  ∀ before input after, sections = before ++ input :: after →
    (∀ earlier ∈ before, earlier.Accepted) → ¬ input.Malformed

/-- **The first pass ends exactly when it comes to no malformed section.** -/
theorem ends_foldlM_readSection_iff {sections : List Section} :
    (sections.foldlM SectionState.readSection {}).Ends ↔ SectionsEnd sections := by
  rw [Run.ends_foldlM_iff]
  refine forall_congr' fun before => forall_congr' fun input => forall_congr' fun after => ?_
  constructor
  · intro hall hsections hbefore
    obtain ⟨state, hstate⟩ := SectionState.exists_foldlM_readSection_iff.mpr hbefore
    exact SectionState.reads_readSection.ends_iff.mp (hall state hsections hstate)
  · intro hall state hsections hstate
    refine SectionState.reads_readSection.ends_iff.mpr (hall hsections ?_)
    exact SectionState.exists_foldlM_readSection_iff.mp ⟨state, hstate⟩

end Backstitch
