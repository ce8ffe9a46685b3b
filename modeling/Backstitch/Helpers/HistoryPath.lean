/-
# Paths into history

A path into history is a reference and a resource path in one text.  Reading it repairs a
scheme that lost a slash, and looks at one byte behind `:/` for that: at the end of the text
or at the start of a longer character there is no such byte to slice.
-/

import Backstitch.Helpers.HistoryRef

namespace Backstitch.Helpers

universe u v

structure HistoryRefPath (κ : Type u) (χ : Type v) where
  ref : HistoryRef κ χ
  path : String
  deriving DecidableEq

variable {κ : Type u} {χ : Type v}

def isValidUriSchemeChar (char : Char) : Bool :=
  char.isAlphanum || char = '-' || char = '.' || char = '+'

def isValidUriScheme (scheme : String) : Bool :=
  match scheme.toList with
  | first :: chars => first.isAlpha && chars.all isValidUriSchemeChar
  | [] => false

/-- `&text[..1]`, which panics unless a character ends there. -/
def firstByte (text : String) : Run String :=
  match text.toList with
  | first :: _ => if first.utf8Size = 1 then .done (String.singleton first) else .panic
  | [] => .panic

/-- "`simplify_path()` ends up mangling the uri identifier". -/
def repairScheme (path : String) : Run String :=
  match splitOnce ":/" path with
  | none => .done path
  | some (uriScheme, rest) =>
      if isValidUriScheme uriScheme then do
        let byte ← firstByte rest
        if byte ≠ "/" then .done (uriScheme ++ "://" ++ rest) else .done path
      else .done path

namespace HistoryRefPath

variable (texts : RefTexts κ χ)

/-- `make_path_string`. -/
def makePathString (ref : HistoryRef κ χ) (path : String) : Option String :=
  if ref.isValid then
    (ref.display texts).map fun shown => "backstitch-" ++ shown ++ "-" ++ path
  else none

/-- `HistoryRefPath::from_str`. -/
def fromStr (text : String) : Run (HistoryRefPath κ χ) :=
  match stripPrefix "backstitch-" text with
  | none => .fail "Invalid path"
  | some behind =>
      match splitOnce "-" behind with
      | none => .fail "Invalid path"
      | some (historyRefPart, path) =>
          (repairScheme path).bind fun path =>
            (HistoryRef.fromStr texts historyRefPart).bind fun ref =>
              .done { ref := ref, path := path }

end HistoryRefPath

/-- What Godot's `simplify_path` does to the `://` of a text. -/
def simplifyPath (text : String) : String :=
  match splitOnce "://" text with
  | none => text
  | some (before, after) => before ++ ":/" ++ after

/-! ## The repaired scheme -/

theorem colon_not_mem_of_isValidUriScheme {scheme : String}
    (hvalid : isValidUriScheme scheme = true) : ':' ∉ scheme.toList := by
  intro hmem
  rw [isValidUriScheme] at hvalid
  split at hvalid
  · rename_i first chars hchars
    rw [hchars] at hmem
    obtain ⟨hfirst, hrest⟩ := Bool.and_eq_true_iff.mp hvalid
    rcases List.mem_cons.mp hmem with heq | hmem
    · rw [← heq] at hfirst
      exact absurd hfirst (by decide)
    · exact absurd (List.all_eq_true.mp hrest ':' hmem) (by decide)
  · nomatch hvalid

/-- A character of one byte comes first. -/
def StartsWithByte (text : String) : Prop :=
  ∃ first, text.toList.head? = some first ∧ first.utf8Size = 1

theorem firstByte_eq_panic_iff {text : String} :
    firstByte text = .panic ↔ ¬ StartsWithByte text := by
  rw [firstByte, StartsWithByte]
  split
  · rename_i first rest htext
    rw [htext]
    split_ifs with hsize
    · exact iff_of_false (fun hpanic => nomatch hpanic) (not_not.mpr ⟨first, rfl, hsize⟩)
    · refine iff_of_true rfl ?_
      rintro ⟨other, hother, hbyte⟩
      cases hother
      exact hsize hbyte
  · rename_i htext
    rw [htext]
    exact iff_of_true rfl fun ⟨first, hfirst, _⟩ => nomatch hfirst

theorem firstByte_eq_done {text : String} {first : Char} (hfirst : text.toList.head? = some first)
    (hsize : first.utf8Size = 1) : firstByte text = .done (String.singleton first) := by
  obtain ⟨rest, htext⟩ := List.head?_eq_some_iff.mp hfirst
  rw [firstByte, htext]
  exact if_pos hsize

/-- Behind a valid scheme, one byte is looked at. -/
theorem repairScheme_append {scheme : String} (hvalid : isValidUriScheme scheme = true)
    (rest : String) :
    repairScheme (scheme ++ ":/" ++ rest) = (firstByte rest >>= fun byte =>
      if byte ≠ "/" then .done (scheme ++ "://" ++ rest)
      else .done (scheme ++ ":/" ++ rest)) := by
  have hsplit : splitOnce ":/" (scheme ++ ":/" ++ rest) = some (scheme, rest) :=
    splitOnce_append rfl (colon_not_mem_of_isValidUriScheme hvalid)
  rw [repairScheme, hsplit]
  dsimp only
  rw [if_pos hvalid]

/-- Only the slice behind a valid scheme panics, and the repair never fails. -/
theorem repairScheme_cases (path : String) :
    (∃ repaired, repairScheme path = .done repaired) ∨
      repairScheme path = .panic ∧ ∃ scheme rest, path = scheme ++ ":/" ++ rest ∧
        isValidUriScheme scheme = true ∧ ¬ StartsWithByte rest := by
  rcases hsplit : splitOnce ":/" path with _ | ⟨scheme, rest⟩
  · exact .inl ⟨path, by rw [repairScheme, hsplit]⟩
  · by_cases hvalid : isValidUriScheme scheme = true
    · have hpath := append_of_splitOnce hsplit
      rw [hpath, repairScheme_append hvalid]
      by_cases hbyte : StartsWithByte rest
      · obtain ⟨first, hfirst, hsize⟩ := hbyte
        rw [firstByte_eq_done hfirst hsize, Run.done_bind]
        left
        split_ifs
        · exact ⟨_, rfl⟩
        · exact ⟨_, rfl⟩
      · right
        rw [firstByte_eq_panic_iff.mpr hbyte]
        exact ⟨rfl, scheme, rest, rfl, hvalid, hbyte⟩
    · left
      refine ⟨path, ?_⟩
      rw [repairScheme, hsplit]
      exact if_neg hvalid

namespace HistoryRefPath

/-! ## Texts that panic -/

/-- Behind the reference comes a valid scheme and `:/`, and then neither `/` nor any other
character of one byte. -/
def CutsScheme (text : String) : Prop :=
  ∃ historyRefPart scheme rest,
    text = "backstitch-" ++ (historyRefPart ++ "-" ++ (scheme ++ ":/" ++ rest)) ∧
      '-' ∉ historyRefPart.toList ∧ isValidUriScheme scheme = true ∧ ¬ StartsWithByte rest

/-- Reading ends with a path or with an error. -/
def Reads (texts : RefTexts κ χ) (text : String) : Prop :=
  (∃ path, fromStr texts text = .done path) ∨ ∃ message, fromStr texts text = .fail message

/-- What is read of a text with both dividers. -/
theorem fromStr_append (texts : RefTexts κ χ) {historyRefPart : String}
    (hfree : '-' ∉ historyRefPart.toList) (path : String) :
    fromStr texts ("backstitch-" ++ (historyRefPart ++ "-" ++ path)) =
      (repairScheme path).bind fun path => (HistoryRef.fromStr texts historyRefPart).bind fun ref =>
        .done { ref := ref, path := path } := by
  have hsplit : splitOnce "-" (historyRefPart ++ "-" ++ path) = some (historyRefPart, path) :=
    splitOnce_append rfl hfree
  rw [fromStr, stripPrefix_append]
  dsimp only
  rw [hsplit]

/-- A text that cuts the scheme panics. -/
theorem fromStr_of_cutsScheme (texts : RefTexts κ χ) {text : String} (hcuts : CutsScheme text) :
    fromStr texts text = .panic := by
  obtain ⟨historyRefPart, scheme, rest, rfl, hfree, hvalid, hbyte⟩ := hcuts
  rw [fromStr_append texts hfree, repairScheme_append hvalid, firstByte_eq_panic_iff.mpr hbyte]
  rfl

/-- **Reading a text ends with a path or an error exactly if the text does not cut the scheme.** -/
theorem reads_iff (texts : RefTexts κ χ) (text : String) :
    Reads texts text ↔ ¬ CutsScheme text := by
  constructor
  · rintro hreads hcuts
    have hpanic := fromStr_of_cutsScheme texts hcuts
    rcases hreads with ⟨path, hdone⟩ | ⟨message, hfail⟩
    · nomatch hpanic.symm.trans hdone
    · nomatch hpanic.symm.trans hfail
  · intro hwhole
    rcases hstrip : stripPrefix "backstitch-" text with _ | behind
    · exact .inr ⟨"Invalid path", by rw [fromStr, hstrip]⟩
    rcases hsplit : splitOnce "-" behind with _ | ⟨historyRefPart, path⟩
    · refine .inr ⟨"Invalid path", ?_⟩
      rw [fromStr, hstrip]
      dsimp only
      rw [hsplit]
    have hdash : "-" = String.singleton '-' := by decide
    rw [hdash] at hsplit
    obtain ⟨hbehind, hfree⟩ := splitOnce_singleton_eq_some_iff.mp hsplit
    have htext : text = "backstitch-" ++ (historyRefPart ++ "-" ++ path) := by
      rw [append_of_stripPrefix hstrip, hbehind, hdash]
    rw [Reads, htext, fromStr_append texts hfree]
    rcases repairScheme_cases path with ⟨repaired, hdone⟩ | ⟨-, scheme, rest, hpath, hrest⟩
    · rw [hdone]
      rcases HistoryRef.fromStr_ends texts historyRefPart with ⟨ref, href⟩ | ⟨message, href⟩
      · rw [href]
        exact .inl ⟨_, rfl⟩
      · rw [href]
        exact .inr ⟨message, rfl⟩
    · refine absurd ⟨historyRefPart, scheme, rest, ?_, hfree, hrest⟩ hwhole
      rw [htext, hpath]

/-! ## Round trips -/

/-- The path is read back from the text that is made of it, and from this text after
`simplify_path`. -/
def RoundTrips (texts : RefTexts κ χ) (ref : HistoryRef κ χ) (path : String) : Prop :=
  ∃ text, makePathString texts ref path = some text ∧
    fromStr texts text = .done { ref := ref, path := path } ∧
      fromStr texts (simplifyPath text) = .done { ref := ref, path := path }

/-- A character of one byte other than `/` comes first. -/
def StartsPlain (text : String) : Prop :=
  ∃ first, text.toList.head? = some first ∧ first.utf8Size = 1 ∧ first ≠ '/'

/-- The scheme of a resource path is left as it is. -/
theorem repairScheme_res (rest : String) :
    repairScheme ("res://" ++ rest) = .done ("res://" ++ rest) := by
  have hpath : "res://" ++ rest = "res" ++ ":/" ++ ("/" ++ rest) := by
    rw [← String.append_assoc]
    exact congrArg (· ++ rest) (by decide)
  have hbyte : firstByte ("/" ++ rest) = .done (String.singleton '/') :=
    firstByte_eq_done (by rw [String.toList_append]; rfl) (by decide)
  rw [hpath, repairScheme_append (by decide), hbyte, Run.done_bind, if_neg (by decide)]

/-- A simplified scheme is repaired exactly if a character of one byte other than `/` comes
behind it. -/
theorem repairScheme_simplified_iff (rest : String) :
    repairScheme ("res:/" ++ rest) = .done ("res://" ++ rest) ↔ StartsPlain rest := by
  have hpath : "res:/" ++ rest = "res" ++ ":/" ++ rest := congrArg (· ++ rest) (by decide)
  have hrepaired : "res://" ++ rest = "res" ++ "://" ++ rest := congrArg (· ++ rest) (by decide)
  rw [hpath, repairScheme_append (by decide), ← hpath, ← hrepaired]
  by_cases hbyte : StartsWithByte rest
  · obtain ⟨first, hfirst, hsize⟩ := hbyte
    rw [firstByte_eq_done hfirst hsize, Run.done_bind]
    by_cases hslash : first = '/'
    · rw [if_neg (by rw [hslash]; decide)]
      refine iff_of_false (fun hdone => ?_) ?_
      · have hlength := congrArg String.length (Run.done.inj hdone)
        rw [String.length_append, String.length_append] at hlength
        exact absurd (Nat.add_right_cancel hlength) (by decide)
      · rintro ⟨other, hother, -, hplain⟩
        exact hplain ((Option.some.inj (hother.symm.trans hfirst)).trans hslash)
    · have hother : String.singleton first ≠ "/" := fun heq =>
        hslash (List.singleton_injective (by simpa using congrArg String.toList heq))
      rw [if_pos hother]
      exact iff_of_true rfl ⟨first, hfirst, hsize, hslash⟩
  · rw [firstByte_eq_panic_iff.mpr hbyte]
    refine iff_of_false (fun hpanic => nomatch hpanic) ?_
    rintro ⟨first, hfirst, hsize, -⟩
    exact hbyte ⟨first, hfirst, hsize⟩

/-- `simplify_path` takes a slash from the scheme. -/
theorem simplifyPath_res {texts : LawfulRefTexts κ χ} {ref : HistoryRef κ χ} {shown : String}
    (hdisplay : ref.display texts.toRefTexts = some shown) (rest : String) :
    simplifyPath ("backstitch-" ++ (shown ++ "-" ++ ("res://" ++ rest))) =
      "backstitch-" ++ (shown ++ "-" ++ ("res:/" ++ rest)) := by
  have hcolon : ':' ∉ ("backstitch-" ++ shown ++ "-" ++ "res").toList := by
    have hshown : ':' ∉ shown.toList := fun hmem =>
      absurd (HistoryRef.mem_display hdisplay hmem) (by decide)
    simp [hshown]
  have hsplit : splitOnce "://" ("backstitch-" ++ shown ++ "-" ++ "res" ++ "://" ++ rest) =
      some ("backstitch-" ++ shown ++ "-" ++ "res", rest) :=
    splitOnce_append rfl hcolon
  have hscheme : "res://" = "res" ++ "://" := by decide
  have hsimplified : "res:/" = "res" ++ ":/" := by decide
  rw [hscheme, hsimplified]
  simp only [String.append_assoc] at hsplit ⊢
  rw [simplifyPath, hsplit]
  simp only [String.append_assoc]

/-- **Exactly when a path into history makes the round trips.** -/
theorem roundTrips_iff (texts : LawfulRefTexts κ χ) (ref : HistoryRef κ χ) (rest : String) :
    RoundTrips texts.toRefTexts ref ("res://" ++ rest) ↔
      ref.isValid = true ∧ StartsPlain rest := by
  by_cases hvalid : ref.isValid = true
  · obtain ⟨shown, hdisplay⟩ : ∃ shown, ref.display texts.toRefTexts = some shown :=
      ⟨_, if_pos hvalid⟩
    have htext : makePathString texts.toRefTexts ref ("res://" ++ rest) =
        some ("backstitch-" ++ (shown ++ "-" ++ ("res://" ++ rest))) := by
      rw [makePathString, if_pos hvalid, hdisplay, Option.map_some, String.append_assoc,
        String.append_assoc, String.append_assoc]
    have hdash : '-' ∉ shown.toList := fun hmem =>
      absurd (HistoryRef.mem_display hdisplay hmem) (by decide)
    have hread (path : String) :
        fromStr texts.toRefTexts ("backstitch-" ++ (shown ++ "-" ++ path)) =
          (repairScheme path).bind fun path => .done { ref := ref, path := path } := by
      rw [fromStr_append texts.toRefTexts hdash, HistoryRef.fromStr_display texts hdisplay]
      rfl
    have hsimplified : fromStr texts.toRefTexts
        ("backstitch-" ++ (shown ++ "-" ++ ("res:/" ++ rest))) =
          .done { ref := ref, path := "res://" ++ rest } ↔ StartsPlain rest := by
      rw [hread, ← repairScheme_simplified_iff]
      constructor
      · intro hdone
        rcases repairScheme_cases ("res:/" ++ rest) with ⟨repaired, hrepaired⟩ | ⟨hpanic, -⟩
        · rw [hrepaired] at hdone ⊢
          exact congrArg Run.done (congrArg HistoryRefPath.path (Run.done.inj hdone))
        · rw [hpanic] at hdone
          nomatch hdone
      · intro hdone
        rw [hdone]
        rfl
    rw [and_iff_right hvalid, ← hsimplified]
    constructor
    · rintro ⟨text, hmade, -, hsimple⟩
      cases htext.symm.trans hmade
      rwa [simplifyPath_res hdisplay] at hsimple
    · intro hsimple
      refine ⟨_, htext, ?_, ?_⟩
      · rw [hread, repairScheme_res]
        rfl
      · rwa [simplifyPath_res hdisplay]
  · refine iff_of_false ?_ fun hboth => hvalid hboth.1
    rintro ⟨text, hmade, -⟩
    rw [makePathString, if_neg hvalid] at hmade
    nomatch hmade

/-- **Exactly when history paths round trip and reading does not panic.** -/
theorem roundTrips_and_reads_iff (texts : LawfulRefTexts κ χ) :
    (∀ (ref : HistoryRef κ χ) (rest : String),
      RoundTrips texts.toRefTexts ref ("res://" ++ rest) ↔
        ref.isValid = true ∧ StartsPlain rest) ∧
      ∀ text, Reads texts.toRefTexts text ↔ ¬ CutsScheme text :=
  ⟨roundTrips_iff texts, reads_iff texts.toRefTexts⟩

/-- A resource path that starts with a longer character does not make the round trips, and a
text that ends behind `:/` panics. -/
theorem not_roundTrips_and_reads :
    ¬ RoundTrips knownTexts.toRefTexts (.new () [true, false]) ("res://" ++ "é.gd") ∧
      ¬ Reads knownTexts.toRefTexts "backstitch--a:/" := by
  constructor
  · rw [roundTrips_iff]
    rintro ⟨-, first, hfirst, hsize, -⟩
    cases hfirst
    exact absurd hsize (by decide)
  · rw [reads_iff, not_not]
    exact ⟨"", "a", "", by decide, by decide, by decide, by simp [StartsWithByte]⟩

end HistoryRefPath

end Backstitch.Helpers
