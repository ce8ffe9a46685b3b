/-
# The string operations of the source's standard library

Integer `parse` and `Display`, `split`, `join`, `trim` and the affix tests, as
the standard library documents them.  They are given on the characters of a
string, so that every one of them evaluates; the lemmas say which of them undo
each other.
-/

import Mathlib.Algebra.Group.Int.Defs
import Mathlib.Algebra.GroupWithZero.Nat
import Mathlib.Data.List.Infix
import Mathlib.Data.String.Basic
import Mathlib.Tactic.Common

namespace Backstitch

/-! ## Integers -/

/-- One or more ASCII digits, read in base ten. -/
def parseDigits (digits : List Char) : Option ℕ :=
  if digits ≠ [] ∧ digits.all Char.isDigit then some (Nat.ofDigitChars 10 digits 0)
  else none

/-- The value of an optional sign followed by ASCII digits. -/
def parseInteger (text : String) : Option ℤ :=
  match text.toList with
  | '-' :: digits => (parseDigits digits).map fun value => -(value : ℤ)
  | '+' :: digits => (parseDigits digits).map Int.ofNat
  | digits => (parseDigits digits).map Int.ofNat

/-- `str::parse::<i64>`, without the error it reports. -/
def parseI64 (text : String) : Option ℤ :=
  (parseInteger text).filter fun value => decide (-2 ^ 63 ≤ value ∧ value < 2 ^ 63)

/-- `str::parse::<i32>`, without the error it reports. -/
def parseI32 (text : String) : Option Int32 :=
  (parseInteger text).bind fun value =>
    if -2 ^ 31 ≤ value ∧ value < 2 ^ 31 then some (Int32.ofInt value) else none

/-- `Display` of an integer. -/
def displayInteger (value : ℤ) : String := toString value

/-- `Display` of an `i32`. -/
def displayI32 (value : Int32) : String := displayInteger value.toInt

theorem parseDigits_toDigits (value : ℕ) :
    parseDigits (Nat.toDigits 10 value) = some value := by
  have hdigits : (Nat.toDigits 10 value).all Char.isDigit = true :=
    List.all_eq_true.mpr fun _ hmem =>
      Nat.isDigit_of_mem_toDigits (by decide) (by decide) hmem
  rw [parseDigits, if_pos ⟨Nat.toDigits_ne_nil, hdigits⟩, Nat.ofDigitChars_ten_toDigits]

/-- The text of a natural number starts with a digit, hence with no sign. -/
theorem toDigits_eq_cons (value : ℕ) :
    ∃ digit digits, Nat.toDigits 10 value = digit :: digits ∧ digit.isDigit = true := by
  cases hdigits : Nat.toDigits 10 value with
  | nil => exact absurd hdigits Nat.toDigits_ne_nil
  | cons digit digits =>
      refine ⟨digit, digits, rfl, Nat.isDigit_of_mem_toDigits (b := 10) (n := value)
        (by decide) (by decide) ?_⟩
      simp [hdigits]

theorem toList_displayInteger_ofNat (value : ℕ) :
    (displayInteger (Int.ofNat value)).toList = Nat.toDigits 10 value :=
  Nat.toList_repr

theorem toList_displayInteger_negSucc (value : ℕ) :
    (displayInteger (Int.negSucc value)).toList = '-' :: Nat.toDigits 10 (value + 1) := by
  have hrepr : displayInteger (Int.negSucc value) = "-" ++ (value + 1).repr := rfl
  rw [hrepr, String.toList_append, Nat.toList_repr]
  rfl

/-- `parse` inverts `Display` on integers. -/
@[simp]
theorem parseInteger_displayInteger (value : ℤ) :
    parseInteger (displayInteger value) = some value := by
  cases value with
  | ofNat value =>
      obtain ⟨digit, digits, hcons, hdigit⟩ := toDigits_eq_cons value
      have hminus : digit ≠ '-' := by
        rintro rfl
        exact absurd hdigit (by decide)
      have hplus : digit ≠ '+' := by
        rintro rfl
        exact absurd hdigit (by decide)
      have hlist : (displayInteger (Int.ofNat value)).toList = digit :: digits :=
        (toList_displayInteger_ofNat value).trans hcons
      rw [parseInteger, hlist]
      split
      · simp_all
      · simp_all
      · rw [← hcons, parseDigits_toDigits]
        rfl
  | negSucc value =>
      rw [parseInteger, toList_displayInteger_negSucc]
      simp only [parseDigits_toDigits]
      rfl

theorem parseI64_displayInteger {value : ℤ} (hlower : -2 ^ 63 ≤ value)
    (hupper : value < 2 ^ 63) : parseI64 (displayInteger value) = some value := by
  rw [parseI64, parseInteger_displayInteger, Option.filter_some, if_pos]
  exact decide_eq_true ⟨hlower, hupper⟩

/-- `parse::<i32>` inverts `Display`. -/
@[simp]
theorem parseI32_displayI32 (value : Int32) : parseI32 (displayI32 value) = some value := by
  simp only [parseI32, displayI32, parseInteger_displayInteger, Option.bind_some]
  rw [if_pos ⟨value.le_toInt, value.toInt_lt⟩, Int32.ofInt_toInt]

/-! ## Splitting and joining -/

/-- `str::split` at one character. -/
def splitAtChar (separator : Char) (text : String) : List String :=
  (text.toList.splitOn separator).map String.ofList

/-- Joining parts free of the separator and splitting again gives the parts. -/
theorem splitAtChar_intercalate {separator : Char} {parts : List String}
    (hfree : ∀ part ∈ parts, separator ∉ part.toList) (hparts : parts ≠ []) :
    splitAtChar separator ((String.singleton separator).intercalate parts) = parts := by
  have hsplit : (List.intercalate [separator] (parts.map String.toList)).splitOn separator =
      parts.map String.toList :=
    List.splitOn_intercalate separator (by simpa using hfree) (by simpa using hparts)
  rw [splitAtChar, String.toList_intercalate, String.toList_singleton, hsplit, List.map_map]
  simp

/-- A joined text has the characters of the parts and of the separator. -/
theorem mem_intercalate {separator : String} {parts : List String} {char : Char}
    (hmem : char ∈ (separator.intercalate parts).toList) :
    char ∈ separator.toList ∨ ∃ part ∈ parts, char ∈ part.toList := by
  induction parts with
  | nil => simp at hmem
  | cons part parts ih =>
      cases parts with
      | nil =>
          rw [String.intercalate_singleton] at hmem
          exact .inr ⟨part, List.mem_singleton_self part, hmem⟩
      | cons next parts =>
          rw [String.intercalate_cons_cons, String.toList_append, String.toList_append] at hmem
          rcases List.mem_append.mp hmem with hfront | hrest
          · rcases List.mem_append.mp hfront with hpart | hseparator
            · exact .inr ⟨part, List.mem_cons_self, hpart⟩
            · exact .inl hseparator
          · rcases ih hrest with hseparator | ⟨other, hother, hchar⟩
            · exact .inl hseparator
            · exact .inr ⟨other, List.mem_cons_of_mem part hother, hchar⟩

/-- Two different lists of one length have a first difference. -/
theorem exists_first_difference {α : Type*} {first second : List α}
    (hlength : first.length = second.length) (hne : first ≠ second) :
    ∃ front one other rest others, first = front ++ one :: rest ∧
      second = front ++ other :: others ∧ one ≠ other := by
  induction first generalizing second with
  | nil => exact absurd (List.length_eq_zero_iff.mp hlength.symm).symm hne
  | cons one rest ih =>
      cases second with
      | nil => nomatch hlength
      | cons other others =>
          by_cases hsame : one = other
          · subst hsame
            obtain ⟨front, text, another, rest, others, rfl, rfl, hdiffer⟩ :=
              ih (Nat.succ.inj hlength) (fun heq => hne (congrArg _ heq))
            exact ⟨one :: front, text, another, rest, others, rfl, rfl, hdiffer⟩
          · exact ⟨[], one, other, rest, others, rfl, rfl, hsame⟩

/-- Where two joined texts first differ in a part, with as many parts to come, one of the two
parts is the other one followed by the separator and more. -/
theorem prefix_of_intercalate_eq {separator : Char} {front rest others : List String}
    {part other : String} (hlength : rest.length = others.length) (hne : part ≠ other)
    (hsame : (String.singleton separator).intercalate (front ++ part :: rest) =
      (String.singleton separator).intercalate (front ++ other :: others)) :
    rest ≠ [] ∧ (part.toList ++ [separator] <+: other.toList ∨
      other.toList ++ [separator] <+: part.toList) := by
  induction front with
  | nil =>
      rw [List.nil_append, List.nil_append] at hsame
      cases rest with
      | nil =>
          obtain rfl := List.length_eq_zero_iff.mp hlength.symm
          rw [String.intercalate_singleton, String.intercalate_singleton] at hsame
          exact absurd hsame hne
      | cons next rest =>
          cases others with
          | nil => nomatch hlength
          | cons following others =>
              refine ⟨List.cons_ne_nil next rest, ?_⟩
              replace hsame := congrArg String.toList hsame
              simp only [String.intercalate_cons_cons, String.toList_append,
                String.toList_singleton, List.append_assoc, List.singleton_append] at hsame
              rcases List.append_eq_append_iff.mp hsame with
                ⟨more, hother, hrest⟩ | ⟨more, hpart, hrest⟩
              · cases more with
                | nil => exact absurd (String.toList_inj.mp (by simpa using hother.symm)) hne
                | cons char more =>
                    obtain rfl := (List.cons.inj hrest).1
                    exact .inl ⟨more, by rw [hother, List.append_assoc, List.singleton_append]⟩
              · cases more with
                | nil => exact absurd (String.toList_inj.mp (by simpa using hpart)) hne
                | cons char more =>
                    obtain rfl := (List.cons.inj hrest).1
                    exact .inr ⟨more, by rw [hpart, List.append_assoc, List.singleton_append]⟩
  | cons first front ih =>
      rw [List.cons_append, List.cons_append, String.intercalate_cons_of_ne_nil (by simp),
        String.intercalate_cons_of_ne_nil (by simp)] at hsame
      exact ih (String.append_right_inj _ |>.mp hsame)

/-- A joined text has the occurrences of the separator in its parts and those between them. -/
theorem count_intercalate {separator : Char} {first : String} (rest : List String) :
    ((String.singleton separator).intercalate (first :: rest)).toList.count separator =
      ((first :: rest).map fun part => part.toList.count separator).sum + rest.length := by
  induction rest generalizing first with
  | nil => rw [String.intercalate_singleton]; simp
  | cons next rest ih =>
      rw [String.intercalate_cons_cons, String.toList_append, String.toList_append,
        List.count_append, List.count_append, ih, String.toList_singleton,
        List.count_singleton_self, List.length_cons, List.map_cons (a := first), List.sum_cons]
      omega

/-- Splitting a text at one occurrence of the separator and the rest on their own. -/
theorem splitAtChar_append (separator : Char) (before after : String) :
    splitAtChar separator (before ++ String.singleton separator ++ after) =
      splitAtChar separator before ++ splitAtChar separator after := by
  simp only [splitAtChar, String.toList_append, String.toList_singleton, List.append_assoc,
    List.singleton_append]
  rw [List.splitOn_append_cons_self, List.map_append]

/-- A part is a piece of the text. -/
theorem infix_of_mem_splitAtChar {separator : Char} {text part : String}
    (hmem : part ∈ splitAtChar separator text) : part.toList <:+: text.toList := by
  have hpieces (parts : List (List Char)) : ∀ piece ∈ parts,
      piece <:+: [separator].intercalate parts := by
    induction parts with
    | nil => exact fun piece hpiece => nomatch hpiece
    | cons first parts ih =>
        intro piece hpiece
        cases parts with
        | nil =>
            rw [List.mem_singleton.mp hpiece, List.intercalate_singleton]
        | cons next parts =>
            rw [List.intercalate_cons_cons]
            rcases List.mem_cons.mp hpiece with heq | hrest
            · rw [heq, List.append_assoc]
              exact (List.prefix_append _ _).isInfix
            · exact (ih piece hrest).trans (List.suffix_append _ _).isInfix
  obtain ⟨piece, hpiece, rfl⟩ := List.mem_map.mp hmem
  have htext := hpieces _ piece hpiece
  rwa [List.intercalate_splitOn, ← String.toList_ofList (l := piece)] at htext

/-- The separator does not occur in a part. -/
theorem not_mem_of_mem_splitAtChar {separator : Char} {text part : String}
    (hmem : part ∈ splitAtChar separator text) : separator ∉ part.toList := by
  obtain ⟨piece, hpiece, rfl⟩ := List.mem_map.mp hmem
  rw [String.toList_ofList]
  generalize text.toList = chars at hpiece
  clear hmem
  induction hlength : chars.length using Nat.strong_induction_on generalizing chars with
  | _ length ih =>
      by_cases hin : separator ∈ chars
      · obtain ⟨before, after, rfl, hfree⟩ := List.eq_append_cons_of_mem hin
        rw [List.splitOn_append_cons_self, List.splitOn_eq_singleton hfree] at hpiece
        rcases List.mem_cons.mp hpiece with heq | hrest
        · rwa [heq]
        · exact ih after.length (by simp [← hlength]; omega) after hrest rfl
      · rw [List.splitOn_eq_singleton hin] at hpiece
        rwa [List.mem_singleton.mp hpiece]

/-- A text is determined by its parts. -/
theorem splitAtChar_injective (separator : Char) :
    Function.Injective (splitAtChar separator) := by
  intro first second hsame
  have hparts : first.toList.splitOn separator = second.toList.splitOn separator :=
    List.map_injective_iff.mpr (fun _ _ heq => String.ofList_inj.mp heq) hsame
  have hfirst : [separator].intercalate (first.toList.splitOn separator) = first.toList :=
    List.intercalate_splitOn separator
  apply String.toList_inj.mp
  rw [← hfirst, hparts, List.intercalate_splitOn]

/-- A text without the separator is its only part. -/
theorem splitAtChar_of_not_mem {separator : Char} {text : String}
    (hfree : separator ∉ text.toList) : splitAtChar separator text = [text] := by
  rw [splitAtChar, List.splitOn_eq_singleton hfree]
  simp

/-- A natural number is written without a dash. -/
theorem dash_not_mem_displayI32 {value : Int32} (hvalue : 0 ≤ value) :
    '-' ∉ (displayI32 value).toList := by
  obtain ⟨number, hnumber⟩ : ∃ number : ℕ, value.toInt = Int.ofNat number := by
    have hnonneg : 0 ≤ value.toInt := by
      simpa using Int32.le_iff_toInt_le.mp hvalue
    exact ⟨value.toInt.toNat, (Int.toNat_of_nonneg hnonneg).symm⟩
  rw [displayI32, hnumber, toList_displayInteger_ofNat]
  intro hdash
  have hdigit := Nat.isDigit_of_mem_toDigits (by decide) (by decide) hdash
  exact absurd hdigit (by decide)

/-- The dash of a negative number has nothing in front of it. -/
theorem empty_mem_splitAtChar_displayI32 {value : Int32} (hvalue : ¬ 0 ≤ value) :
    "" ∈ splitAtChar '-' (displayI32 value) := by
  obtain ⟨number, hnumber⟩ : ∃ number : ℕ, value.toInt = Int.negSucc number := by
    have hneg : value.toInt < 0 := by
      have hnonneg : ¬ 0 ≤ value.toInt := fun hle =>
        hvalue (Int32.le_iff_toInt_le.mpr (by simpa using hle))
      omega
    exact ⟨_, (Int.eq_negSucc_of_lt_zero hneg).choose_spec⟩
  rw [splitAtChar, displayI32, hnumber, toList_displayInteger_negSucc,
    ← List.nil_append (_ :: _), List.splitOn_append_cons_self]
  simp

/-- The white space that `str::trim` removes (the Unicode `White_Space` property). -/
def isWhiteSpace (char : Char) : Bool :=
  let point := char.toNat
  (0x9 ≤ point && point ≤ 0xD) || point == 0x20 || point == 0x85 || point == 0xA0 ||
    point == 0x1680 || (0x2000 ≤ point && point ≤ 0x200A) || point == 0x2028 ||
    point == 0x2029 || point == 0x202F || point == 0x205F || point == 0x3000

/-- `str::trim`. -/
def trimText (text : String) : String :=
  String.ofList ((text.toList.dropWhile isWhiteSpace).reverse.dropWhile isWhiteSpace).reverse

/-- `str::trim_end`. -/
def trimTextEnd (text : String) : String :=
  String.ofList (text.toList.reverse.dropWhile isWhiteSpace).reverse

/-- A text that neither starts nor ends with white space is trimmed already. -/
theorem trimText_eq_self {text : String}
    (hhead : ∀ char, text.toList.head? = some char → isWhiteSpace char = false)
    (hlast : ∀ char, text.toList.getLast? = some char → isWhiteSpace char = false) :
    trimText text = text := by
  have hdrop {chars : List Char}
      (hfirst : ∀ char, chars.head? = some char → isWhiteSpace char = false) :
      chars.dropWhile isWhiteSpace = chars := by
    cases chars with
    | nil => rfl
    | cons char chars => rw [List.dropWhile_cons_of_neg (by simp [hfirst char rfl])]
  rw [trimText, hdrop hhead, hdrop (by simpa using hlast)]
  simp

/-- `str::strip_prefix`. -/
def stripPrefix (affix text : String) : Option String :=
  if affix.toList <+: text.toList then
    some (String.ofList (text.toList.drop affix.toList.length))
  else none

theorem stripPrefix_append (affix rest : String) :
    stripPrefix affix (affix ++ rest) = some rest := by
  rw [stripPrefix, String.toList_append, if_pos (List.prefix_append _ _), List.drop_left,
    String.ofList_toList]

theorem append_of_stripPrefix {affix text rest : String}
    (hstrip : stripPrefix affix text = some rest) : text = affix ++ rest := by
  rw [stripPrefix] at hstrip
  split_ifs at hstrip with haffix
  obtain ⟨behind, htext⟩ := haffix
  rw [← htext, List.drop_left, Option.some_inj] at hstrip
  rw [← hstrip, ← String.toList_inj, String.toList_append, String.toList_ofList, htext]

/-- `str::strip_suffix`. -/
def stripSuffix (affix text : String) : Option String :=
  if affix.toList <:+ text.toList then
    some (String.ofList (text.toList.take (text.toList.length - affix.toList.length)))
  else none

theorem stripSuffix_append (text affix : String) :
    stripSuffix affix (text ++ affix) = some text := by
  rw [stripSuffix, String.toList_append, if_pos (List.suffix_append _ _), List.length_append,
    Nat.add_sub_cancel, List.take_left, String.ofList_toList]

/-- The loop of `str::trim_start_matches`; every round shortens the text. -/
def trimStartLoop (pattern : List Char) : ℕ → List Char → List Char
  | 0, text => text
  | fuel + 1, text =>
      if pattern.isPrefixOf text then trimStartLoop pattern fuel (text.drop pattern.length)
      else text

/-- `str::trim_start_matches` with a text that is not empty. -/
def trimStartMatches (pattern text : String) : String :=
  String.ofList (trimStartLoop pattern.toList text.toList.length text.toList)

/-- `str::trim_end_matches` with a text that is not empty. -/
def trimEndMatches (pattern text : String) : String :=
  String.ofList (trimStartLoop pattern.toList.reverse text.toList.length
    text.toList.reverse).reverse

/-- `str::starts_with`. -/
def startsWithText (text affix : String) : Bool := affix.toList.isPrefixOf text.toList

/-- `str::contains`. -/
def containsText (text part : String) : Bool := text.toList.tails.any part.toList.isPrefixOf

/-- A text contains a part if the part's characters stand in it. -/
theorem containsText_iff {text part : String} :
    containsText text part = true ↔ part.toList <:+: text.toList := by
  simp only [containsText, List.any_eq_true, List.mem_tails, List.isPrefixOf_iff_prefix,
    List.infix_iff_prefix_suffix]
  constructor
  · rintro ⟨tail, hsuffix, hleads⟩
    exact ⟨tail, hleads, hsuffix⟩
  · rintro ⟨tail, hleads, hsuffix⟩
    exact ⟨tail, hsuffix, hleads⟩

/-- The loop of `str::split` at a text: `skip` characters of the separator are still to be
passed, and `part` is what came since the last one, backwards. -/
def splitTextLoop (separator : List Char) : ℕ → List Char → List Char → List (List Char)
  | _, part, [] => [part.reverse]
  | skip + 1, part, _ :: rest => splitTextLoop separator skip part rest
  | 0, part, char :: rest =>
      if separator.isPrefixOf (char :: rest) then
        part.reverse :: splitTextLoop separator (separator.length - 1) [] rest
      else splitTextLoop separator 0 (char :: part) rest

/-- `str::split` at a text that is not empty. -/
def splitAtText (separator text : String) : List String :=
  (splitTextLoop separator.toList 0 [] text.toList).map String.ofList

/-- Characters that no separator starts at go to the part. -/
theorem splitTextLoop_append {separator part before after : List Char}
    (hfree : ∀ first second, before = first ++ second → second ≠ [] →
      separator.isPrefixOf (second ++ after) = false) :
    splitTextLoop separator 0 part (before ++ after) =
      splitTextLoop separator 0 (before.reverse ++ part) after := by
  induction before generalizing part with
  | nil => rfl
  | cons char before ih =>
      have hhere := hfree [] (char :: before) rfl (List.cons_ne_nil _ _)
      rw [List.cons_append] at hhere ⊢
      rw [splitTextLoop, hhere, if_neg Bool.false_ne_true, ih, List.reverse_cons, List.append_assoc]
      · rfl
      · intro first second heq
        exact hfree (char :: first) second (by rw [heq]; rfl)

/-- A separator whose first character does not occur starts nowhere. -/
theorem isPrefixOf_append_of_not_mem {head : Char} {tail before after : List Char}
    (hfree : head ∉ before) {first second : List Char} (heq : before = first ++ second)
    (hne : second ≠ []) : (head :: tail).isPrefixOf (second ++ after) = false := by
  cases second with
  | nil => exact absurd rfl hne
  | cons char second =>
      have hchar : head ≠ char := by
        rintro rfl
        exact hfree (by simp [heq])
      simp [List.isPrefixOf, hchar]

theorem splitTextLoop_ne_nil (separator : List Char) (skip : ℕ) (part text : List Char) :
    splitTextLoop separator skip part text ≠ [] := by
  induction text generalizing skip part with
  | nil => cases skip <;> exact List.cons_ne_nil _ _
  | cons char rest ih =>
      cases skip with
      | zero =>
          rw [splitTextLoop]
          split
          · exact List.cons_ne_nil _ _
          · exact ih 0 (char :: part)
      | succ skip => exact ih skip part

/-- A split has a second part exactly if the separator occurs. -/
theorem two_le_length_splitTextLoop_iff {separator : List Char} (hne : separator ≠ [])
    (part text : List Char) :
    2 ≤ (splitTextLoop separator 0 part text).length ↔
      text.tails.any separator.isPrefixOf = true := by
  induction text generalizing part with
  | nil =>
      cases separator with
      | nil => exact absurd rfl hne
      | cons char separator => simp [splitTextLoop, List.isPrefixOf]
  | cons char rest ih =>
      rw [splitTextLoop, List.tails, List.any_cons]
      cases hhere : separator.isPrefixOf (char :: rest) with
      | true =>
          have hlater := List.length_pos_iff.mpr
            (splitTextLoop_ne_nil separator (separator.length - 1) [] rest)
          rw [if_pos rfl, List.length_cons, Bool.true_or]
          exact iff_of_true (Nat.succ_le_succ hlater) rfl
      | false => rw [if_neg Bool.false_ne_true, Bool.false_or, ih]

/-- `split` yields a second part exactly if the separator occurs. -/
theorem exists_splitAtText_iff {separator : String} (hne : separator.toList ≠ []) (text : String) :
    (∃ first second rest, splitAtText separator text = first :: second :: rest) ↔
      containsText text separator = true := by
  rw [containsText, ← two_le_length_splitTextLoop_iff hne [] text.toList, splitAtText]
  constructor
  · rintro ⟨first, second, rest, hsplit⟩
    have hlength := congrArg List.length hsplit
    simp only [List.length_map, List.length_cons] at hlength
    omega
  · intro hlength
    match hloop : splitTextLoop separator.toList 0 [] text.toList with
    | [] => simp [hloop] at hlength
    | [_] => simp [hloop] at hlength
    | first :: second :: rest => exact ⟨_, _, _, rfl⟩

theorem splitAtText_ne_nil (separator text : String) : splitAtText separator text ≠ [] := by
  rw [splitAtText, ne_eq, List.map_eq_nil_iff]
  exact splitTextLoop_ne_nil _ _ _ _

/-- The characters before and behind the first place where a pattern occurs. -/
def splitOnceChars (pattern : List Char) : List Char → Option (List Char × List Char)
  | [] => if pattern = [] then some ([], []) else none
  | char :: rest =>
      if pattern.isPrefixOf (char :: rest) then some ([], (char :: rest).drop pattern.length)
      else (splitOnceChars pattern rest).map fun parts => (char :: parts.1, parts.2)

/-- `str::split_once`. -/
def splitOnce (pattern text : String) : Option (String × String) :=
  (splitOnceChars pattern.toList text.toList).map fun parts =>
    (String.ofList parts.1, String.ofList parts.2)

theorem splitOnceChars_append {head : Char} {tail before after : List Char}
    (hfree : head ∉ before) :
    splitOnceChars (head :: tail) (before ++ (head :: tail) ++ after) =
      some (before, after) := by
  induction before with
  | nil =>
      have hhere : (head :: tail).isPrefixOf (head :: (tail ++ after)) = true := by
        simp [List.isPrefixOf_iff_prefix]
      rw [List.nil_append, List.cons_append, splitOnceChars, if_pos hhere, ← List.cons_append,
        List.drop_left]
  | cons char before ih =>
      obtain ⟨hne, hfree⟩ := not_or.mp (mt List.mem_cons.mpr hfree)
      have hhere : (head :: tail).isPrefixOf (char :: (before ++ (head :: tail) ++ after)) =
          false := by
        simp [List.isPrefixOf, hne]
      rw [List.cons_append, List.cons_append, splitOnceChars, hhere,
        if_neg Bool.false_ne_true, ih hfree]
      rfl

/-- The first place where a pattern occurs is found if its first character does not come
earlier. -/
theorem splitOnce_append {pattern before after : String} {head : Char} {tail : List Char}
    (hpattern : pattern.toList = head :: tail) (hfree : head ∉ before.toList) :
    splitOnce pattern (before ++ pattern ++ after) = some (before, after) := by
  have hsplit : splitOnceChars (head :: tail)
      (before.toList ++ (head :: tail) ++ after.toList) = some (before.toList, after.toList) :=
    splitOnceChars_append hfree
  rw [splitOnce, String.toList_append, String.toList_append, hpattern, hsplit, Option.map_some,
    String.ofList_toList, String.ofList_toList]

/-- The two parts and the pattern make up the text. -/
theorem append_of_splitOnceChars {pattern text before after : List Char}
    (hsplit : splitOnceChars pattern text = some (before, after)) :
    text = before ++ pattern ++ after := by
  induction text generalizing before with
  | nil =>
      rw [splitOnceChars] at hsplit
      split_ifs at hsplit with hpattern
      cases hsplit
      rw [hpattern]
      rfl
  | cons char text ih =>
      rw [splitOnceChars] at hsplit
      split_ifs at hsplit with hhere
      · cases hsplit
        obtain ⟨rest, hrest⟩ := List.isPrefixOf_iff_prefix.mp hhere
        rw [← hrest, List.drop_left, List.nil_append]
      · obtain ⟨⟨front, back⟩, hparts, heq⟩ := Option.map_eq_some_iff.mp hsplit
        cases heq
        rw [ih hparts]
        rfl

theorem append_of_splitOnce {pattern text before after : String}
    (hsplit : splitOnce pattern text = some (before, after)) :
    text = before ++ pattern ++ after := by
  obtain ⟨⟨front, back⟩, hparts, heq⟩ := Option.map_eq_some_iff.mp hsplit
  cases heq
  apply String.toList_inj.mp
  simpa using append_of_splitOnceChars hparts

/-- Before the first place where a character occurs, it does not occur. -/
theorem not_mem_of_splitOnceChars {char : Char} {text before after : List Char}
    (hsplit : splitOnceChars [char] text = some (before, after)) : char ∉ before := by
  induction text generalizing before with
  | nil =>
      rw [splitOnceChars, if_neg (List.cons_ne_nil _ _)] at hsplit
      nomatch hsplit
  | cons first text ih =>
      rw [splitOnceChars] at hsplit
      split_ifs at hsplit with hhere
      · cases hsplit
        exact List.not_mem_nil
      · obtain ⟨⟨front, back⟩, hparts, heq⟩ := Option.map_eq_some_iff.mp hsplit
        cases heq
        have hne : char ≠ first := by
          rintro rfl
          exact hhere (by simp [List.isPrefixOf])
        exact List.not_mem_cons_of_ne_of_not_mem hne (ih hparts)

/-- `split_once` at one character. -/
theorem splitOnce_singleton_eq_some_iff {char : Char} {text before after : String} :
    splitOnce (String.singleton char) text = some (before, after) ↔
      text = before ++ String.singleton char ++ after ∧ char ∉ before.toList := by
  constructor
  · intro hsplit
    refine ⟨append_of_splitOnce hsplit, ?_⟩
    obtain ⟨⟨front, back⟩, hparts, heq⟩ := Option.map_eq_some_iff.mp hsplit
    cases heq
    rw [String.toList_singleton] at hparts
    rw [String.toList_ofList]
    exact not_mem_of_splitOnceChars hparts
  · rintro ⟨rfl, hfree⟩
    exact splitOnce_append (String.toList_singleton char) hfree

end Backstitch
