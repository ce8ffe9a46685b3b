/-
# Values of properties

`get_varstr_value` reads the text of a property: a reference to a sub-resource, to an external
resource or to a path in the form that Godot 4 writes, and otherwise the text itself.  Older
forms make it panic.
-/

import Backstitch.Parser.Scene

namespace Backstitch

/-- What the text of a property refers to. -/
inductive VariantStrValue
  | variant (text : String)
  | resourcePath (path : String)
  | subResourceId (id : String)
  | extResourceId (id : String)
  /-- A property that the node does not have. -/
  | defaultValue (typeOrInstance : Option TypeOrInstance) (prop : String)
  deriving DecidableEq

/-- The text between the first `("` and the next `("` or `")`. -/
def quotedName (propValue : String) : Option String :=
  match splitAtText "(\"" propValue with
  | _ :: rest :: _ => (splitAtText "\")" rest).head?.map trimText
  | _ => none

/-- `get_varstr_value`; a reference that is not quoted makes it panic. -/
def getVarstrValue (propValue : String) : Option VariantStrValue :=
  if startsWithText propValue "Resource(" || startsWithText propValue "SubResource(" ||
      startsWithText propValue "ExtResource(" then
    (quotedName propValue).bind fun id =>
      if containsText propValue "SubResource(" then some (.subResourceId id)
      else if containsText propValue "ExtResource(" then some (.extResourceId id)
      else if containsText id "\", \"" then
        match splitAtText "\", \"" id with
        | _ :: path :: _ => some (.resourcePath (trimText path))
        | _ => none
      else some (.resourcePath id)
  else some (.variant propValue)

example : getVarstrValue "SubResource(\"1_abc\")" = some (.subResourceId "1_abc") := by decide
example : getVarstrValue "Resource(\"uid://x\", \"res://a.tres\")" =
    some (.resourcePath "res://a.tres") := by decide
example : getVarstrValue "SubResource( 1 )" = none := by decide

/-! ## What makes it panic -/

/-- A text that starts like a reference and in which `("` does not occur. -/
def Unquoted (text : String) : Prop :=
  (startsWithText text "Resource(" = true ∨ startsWithText text "SubResource(" = true ∨
    startsWithText text "ExtResource(" = true) ∧ containsText text "(\"" = false

instance (text : String) : Decidable (Unquoted text) := by
  unfold Unquoted
  infer_instance

theorem quotedName_eq_none_iff (text : String) :
    quotedName text = none ↔ containsText text "(\"" = false := by
  rw [← Bool.not_eq_true, ← exists_splitAtText_iff (by decide) text, quotedName]
  split
  · rename_i first rest parts hsplit
    refine iff_of_false ?_ (not_not.mpr ⟨first, rest, parts, hsplit⟩)
    rw [Option.map_eq_none_iff, List.head?_eq_none_iff]
    exact splitAtText_ne_nil _ _
  · rename_i hshort
    refine iff_of_true rfl ?_
    rintro ⟨first, rest, parts, hsplit⟩
    exact hshort first rest parts hsplit

/-- **`get_varstr_value` panics exactly on a reference without a quoted name.** -/
theorem getVarstrValue_eq_none_iff (text : String) :
    getVarstrValue text = none ↔ Unquoted text := by
  have hstarts : (startsWithText text "Resource(" || startsWithText text "SubResource(" ||
      startsWithText text "ExtResource(") = true ↔
        startsWithText text "Resource(" = true ∨ startsWithText text "SubResource(" = true ∨
          startsWithText text "ExtResource(" = true := by
    rw [Bool.or_eq_true, Bool.or_eq_true, or_assoc]
  rw [getVarstrValue, Unquoted, ← quotedName_eq_none_iff, ← hstarts]
  split
  case isFalse hplain => exact iff_of_false nofun fun hboth => hplain hboth.1
  case isTrue hreference =>
      rw [and_iff_right hreference]
      cases quotedName text with
      | none => exact iff_of_true rfl rfl
      | some id =>
          refine iff_of_false ?_ nofun
          rw [Option.bind_some]
          split
          · nofun
          split
          · nofun
          split
          case isFalse => nofun
          case isTrue hpath =>
              obtain ⟨first, second, rest, hsplit⟩ :=
                (exists_splitAtText_iff (by decide) id).mpr hpath
              rw [hsplit]
              nofun

/-! ## What Godot 4 writes -/

/-- Neither `("` nor `")` starts in a text that `")` follows. -/
def Enclosed (inner : List Char) : Prop :=
  ∀ first second, inner = first ++ second → second ≠ [] →
    ['(', '"'].isPrefixOf (second ++ ['"', ')']) = false ∧
      ['"', ')'].isPrefixOf (second ++ ['"', ')']) = false

theorem splitTextLoop_quoted {kind inner : List Char} (hkind : '(' ∉ kind)
    (hinner : Enclosed inner) :
    splitTextLoop ['(', '"'] 0 [] (kind ++ ('(' :: '"' :: (inner ++ ['"', ')']))) =
      [kind, inner ++ ['"', ')']] := by
  have hrest : splitTextLoop ['(', '"'] 0 [] (inner ++ ['"', ')']) = [inner ++ ['"', ')']] := by
    rw [splitTextLoop_append fun first second heq hne => (hinner first second heq hne).1]
    simp [splitTextLoop, List.isPrefixOf]
  rw [splitTextLoop_append fun first second heq hne => isPrefixOf_append_of_not_mem hkind heq hne]
  simp [splitTextLoop, List.isPrefixOf, hrest]

theorem splitTextLoop_enclosed {inner : List Char} (hinner : Enclosed inner) :
    splitTextLoop ['"', ')'] 0 [] (inner ++ ['"', ')']) = [inner, []] := by
  rw [splitTextLoop_append fun first second heq hne => (hinner first second heq hne).2]
  simp [splitTextLoop, List.isPrefixOf]

/-- A reference with a quoted name. -/
def reference (kind name : String) : String := kind ++ "(\"" ++ name ++ "\")"

theorem toList_reference (kind name : String) : (reference kind name).toList =
    kind.toList ++ ('(' :: '"' :: (name.toList ++ ['"', ')'])) := by
  simp [reference]

theorem quotedName_reference {kind inner : String} (hkind : '(' ∉ kind.toList)
    (hinner : Enclosed inner.toList) :
    quotedName (reference kind inner) = some (trimText inner) := by
  have hopen : splitAtText "(\"" (reference kind inner) =
      [kind, String.ofList (inner.toList ++ ['"', ')'])] := by
    rw [splitAtText, toList_reference]
    simp [splitTextLoop_quoted hkind hinner]
  rw [quotedName, hopen]
  simp [splitAtText, splitTextLoop_enclosed hinner]

/-- A name as Godot 4 writes it into a reference. -/
structure PlainName (name : String) : Prop where
  unquoted : '"' ∉ name.toList
  headTrimmed : ∀ char, name.toList.head? = some char → isWhiteSpace char = false
  lastTrimmed : ∀ char, name.toList.getLast? = some char → isWhiteSpace char = false
  /-- It does not end in an opening parenthesis, and does not start with a closing one. -/
  unopened : name.toList.getLast? ≠ some '('
  unclosed : name.toList.head? ≠ some ')'

theorem PlainName.trimmed {name : String} (hplain : PlainName name) : trimText name = name :=
  trimText_eq_self hplain.headTrimmed hplain.lastTrimmed

/-- Neither `("` nor `")` starts in a plain name, whatever follows it. -/
theorem PlainName.not_isPrefixOf {name : String} (hplain : PlainName name)
    {first second : List Char} (heq : name.toList = first ++ second) (hne : second ≠ [])
    (after : List Char) :
    ['(', '"'].isPrefixOf (second ++ after) = false ∧
      ['"', ')'].isPrefixOf (second ++ after) = false := by
  refine ⟨?_, isPrefixOf_append_of_not_mem hplain.unquoted heq hne⟩
  cases second with
  | nil => exact absurd rfl hne
  | cons char second =>
      cases second with
      | nil =>
          have hchar : '(' ≠ char := by
            rintro rfl
            exact hplain.unopened (by simp [heq])
          simp [List.isPrefixOf, hchar]
      | cons next second =>
          have hnext : '"' ≠ next := by
            rintro rfl
            exact hplain.unquoted (by simp [heq])
          simp [List.isPrefixOf, hnext]

theorem PlainName.enclosed {name : String} (hplain : PlainName name) : Enclosed name.toList :=
  fun _ _ heq hne => hplain.not_isPrefixOf heq hne _

theorem startsWithText_reference (kind name : String) :
    startsWithText (reference kind name) (kind ++ "(") = true := by
  simp [startsWithText, toList_reference]

theorem containsText_reference (kind name : String) :
    containsText (reference kind name) (kind ++ "(") = true :=
  List.any_eq_true.mpr ⟨(reference kind name).toList,
    (List.mem_tails _ _).mpr (List.suffix_refl _), startsWithText_reference kind name⟩

/-- A text that lacks a character lacks what has it. -/
theorem containsText_of_not_mem {text part : String} {char : Char} (hpart : char ∈ part.toList)
    (htext : char ∉ text.toList) : containsText text part = false := by
  refine List.any_eq_false.mpr fun suffix hsuffix hleads => htext ?_
  have hpartOf := List.isPrefixOf_iff_prefix.mp hleads
  exact ((List.mem_tails _ _).mp hsuffix).subset (hpartOf.subset hpart)

/-- **A reference to a sub-resource is read as one.** -/
theorem getVarstrValue_subResource {id : String} (hid : PlainName id) :
    getVarstrValue (reference "SubResource" id) = some (.subResourceId id) := by
  have hstarts : startsWithText (reference "SubResource" id) "SubResource(" = true :=
    startsWithText_reference "SubResource" id
  have hcontains : containsText (reference "SubResource" id) "SubResource(" = true :=
    containsText_reference "SubResource" id
  rw [getVarstrValue, quotedName_reference (by decide) hid.enclosed, hid.trimmed]
  simp [hstarts, hcontains]

/-- **A reference to an external resource is read as one.** -/
theorem getVarstrValue_extResource {id : String} (hid : PlainName id)
    (hsub : containsText (reference "ExtResource" id) "SubResource(" = false) :
    getVarstrValue (reference "ExtResource" id) = some (.extResourceId id) := by
  have hstarts : startsWithText (reference "ExtResource" id) "ExtResource(" = true :=
    startsWithText_reference "ExtResource" id
  have hcontains : containsText (reference "ExtResource" id) "ExtResource(" = true :=
    containsText_reference "ExtResource" id
  rw [getVarstrValue, quotedName_reference (by decide) hid.enclosed, hid.trimmed]
  simp [hstarts, hcontains, hsub]

/-- **A path is read as one.** -/
theorem getVarstrValue_resource {path : String} (hpath : PlainName path)
    (hsub : containsText (reference "Resource" path) "SubResource(" = false)
    (hext : containsText (reference "Resource" path) "ExtResource(" = false) :
    getVarstrValue (reference "Resource" path) = some (.resourcePath path) := by
  have hstarts : startsWithText (reference "Resource" path) "Resource(" = true :=
    startsWithText_reference "Resource" path
  have hsingle : containsText path "\", \"" = false :=
    containsText_of_not_mem (by decide) hpath.unquoted
  rw [getVarstrValue, quotedName_reference (by decide) hpath.enclosed, hpath.trimmed]
  simp [hstarts, hsub, hext, hsingle]

/-- A uid and a path in one reference. -/
def uidAndPath (uid path : String) : String := uid ++ "\", \"" ++ path

theorem toList_uidAndPath (uid path : String) : (uidAndPath uid path).toList =
    uid.toList ++ ('"' :: ',' :: ' ' :: '"' :: path.toList) := by
  simp [uidAndPath]

theorem enclosed_uidAndPath {uid path : String} (huid : PlainName uid) (hpath : PlainName path) :
    Enclosed (uidAndPath uid path).toList := by
  intro first second heq hne
  rw [toList_uidAndPath] at heq
  rcases List.append_eq_append_iff.mp heq with ⟨between, -, hrest⟩ | ⟨name, hname, rfl⟩
  · -- the rest starts in the separator or in the path
    rcases List.cons_eq_append_iff.mp hrest with ⟨-, rfl⟩ | ⟨between, -, hrest⟩
    · simp [List.isPrefixOf]
    rcases List.cons_eq_append_iff.mp hrest with ⟨-, rfl⟩ | ⟨between, -, hrest⟩
    · simp [List.isPrefixOf]
    rcases List.cons_eq_append_iff.mp hrest with ⟨-, rfl⟩ | ⟨between, -, hrest⟩
    · simp [List.isPrefixOf]
    rcases List.cons_eq_append_iff.mp hrest with ⟨-, rfl⟩ | ⟨before, -, hsuffix⟩
    · cases hchars : path.toList with
      | nil => simp [List.isPrefixOf]
      | cons char chars =>
          have hchar : ')' ≠ char := by
            rintro rfl
            exact hpath.unclosed (by rw [hchars]; rfl)
          simp [List.isPrefixOf, hchar]
    · exact hpath.not_isPrefixOf hsuffix hne _
  · by_cases hempty : name = []
    · subst hempty
      simp [List.isPrefixOf]
    · rw [List.append_assoc]
      exact huid.not_isPrefixOf hname hempty _

theorem trimText_uidAndPath {uid path : String} (huid : PlainName uid) (hpath : PlainName path) :
    trimText (uidAndPath uid path) = uidAndPath uid path := by
  refine trimText_eq_self (fun char hchar => ?_) (fun char hchar => ?_)
  · rw [toList_uidAndPath] at hchar
    cases huidList : uid.toList with
    | nil =>
        rw [huidList] at hchar
        cases hchar
        decide
    | cons first rest =>
        rw [huidList] at hchar
        exact huid.headTrimmed char (by rw [huidList]; exact hchar)
  · rw [toList_uidAndPath] at hchar
    cases hpathList : path.toList with
    | nil =>
        rw [hpathList] at hchar
        have hquote : '"' = char := by simpa using hchar
        rw [← hquote]
        decide
    | cons first rest =>
        refine hpath.lastTrimmed char ?_
        rw [hpathList] at hchar ⊢
        simpa using hchar

/-- Between names without quotes only the separator is found. -/
theorem splitAtText_of_unquoted {name : String} (hname : '"' ∉ name.toList) :
    splitAtText "\", \"" name = [name] := by
  have hloop : splitTextLoop ['"', ',', ' ', '"'] 0 [] (name.toList ++ []) = [name.toList] := by
    rw [splitTextLoop_append fun first second heq hne =>
      isPrefixOf_append_of_not_mem hname heq hne]
    simp [splitTextLoop]
  rw [List.append_nil] at hloop
  simp [splitAtText, hloop]

theorem splitAtText_uidAndPath {uid path : String} (huid : '"' ∉ uid.toList)
    (hpath : '"' ∉ path.toList) : splitAtText "\", \"" (uidAndPath uid path) = [uid, path] := by
  have hpart := splitAtText_of_unquoted hpath
  rw [splitAtText] at hpart ⊢
  rw [toList_uidAndPath]
  have hloop : splitTextLoop ['"', ',', ' ', '"'] 0 []
      (uid.toList ++ ('"' :: ',' :: ' ' :: '"' :: path.toList)) =
        uid.toList :: splitTextLoop ['"', ',', ' ', '"'] 0 [] path.toList := by
    rw [splitTextLoop_append fun first second heq hne =>
      isPrefixOf_append_of_not_mem huid heq hne]
    simp [splitTextLoop, List.isPrefixOf]
  simpa [hloop] using hpart

/-- **A uid with a path is read as the path.** -/
theorem getVarstrValue_uidAndPath {uid path : String} (huid : PlainName uid)
    (hpath : PlainName path)
    (hsub : containsText (reference "Resource" (uidAndPath uid path)) "SubResource(" = false)
    (hext : containsText (reference "Resource" (uidAndPath uid path)) "ExtResource(" = false) :
    getVarstrValue (reference "Resource" (uidAndPath uid path)) = some (.resourcePath path) := by
  have hstarts : startsWithText (reference "Resource" (uidAndPath uid path)) "Resource(" = true :=
    startsWithText_reference "Resource" _
  have hdouble : containsText (uidAndPath uid path) "\", \"" = true := by
    refine List.any_eq_true.mpr ⟨'"' :: ',' :: ' ' :: '"' :: path.toList, ?_, by simp⟩
    rw [toList_uidAndPath]
    exact (List.mem_tails _ _).mpr (List.suffix_append _ _)
  rw [getVarstrValue, quotedName_reference (by decide) (enclosed_uidAndPath huid hpath),
    trimText_uidAndPath huid hpath]
  simp [hstarts, hsub, hext, hdouble, splitAtText_uidAndPath huid.unquoted hpath.unquoted,
    hpath.trimmed]

/-! ## What a text writes -/

/-- The names without quotes that a reference of some kind has between its parentheses, each of
them in quotes. -/
def writtenNames (kind text : String) : Option (List String) :=
  ((stripPrefix (kind ++ "(\"") text).bind (stripSuffix "\")")).bind fun inner =>
    if ∀ name ∈ splitAtText "\", \"" inner, '"' ∉ name.toList then
      some (splitAtText "\", \"" inner)
    else none

/-- What a text writes: a reference to a sub-resource or to an external resource by its id, or
one to a resource by its path or by its uid and its path; otherwise itself. -/
def writtenValue (text : String) : VariantStrValue :=
  match writtenNames "SubResource" text, writtenNames "ExtResource" text,
    writtenNames "Resource" text with
  | some [id], _, _ => .subResourceId id
  | _, some [id], _ => .extResourceId id
  | _, _, some [path] => .resourcePath path
  | _, _, some [_uid, path] => .resourcePath path
  | _, _, _ => .variant text

example : writtenValue "Resource(\"res://SubResource(1).tres\")" =
    .resourcePath "res://SubResource(1).tres" := by decide

/-- `get_varstr_value` reads a text as what it writes. -/
def ReadAsWritten (text : String) : Prop := getVarstrValue text = some (writtenValue text)

instance (text : String) : Decidable (ReadAsWritten text) :=
  inferInstanceAs (Decidable (_ = _))

theorem writtenNames_reference {kind inner : String}
    (hinner : ∀ name ∈ splitAtText "\", \"" inner, '"' ∉ name.toList) :
    writtenNames kind (reference kind inner) = some (splitAtText "\", \"" inner) := by
  have hleads : stripPrefix (kind ++ "(\"") (reference kind inner) = some (inner ++ "\")") := by
    rw [reference, String.append_assoc]
    exact stripPrefix_append _ _
  rw [writtenNames, hleads, Option.bind_some, stripSuffix_append, Option.bind_some, if_pos hinner]

/-- A text that does not start like a reference of some kind has no such names. -/
theorem writtenNames_eq_none {kind text : String}
    (hstarts : startsWithText text (kind ++ "(") = false) : writtenNames kind text = none := by
  have hleads : stripPrefix (kind ++ "(\"") text = none := by
    rw [stripPrefix, if_neg]
    intro hleads
    rw [startsWithText, ← Bool.not_eq_true, List.isPrefixOf_iff_prefix] at hstarts
    apply hstarts
    refine List.IsPrefix.trans ?_ hleads
    simp
  rw [writtenNames, hleads]
  rfl

/-- **What starts like no reference is read as it is written.** -/
theorem readAsWritten_of_plain {text : String} (hresource : startsWithText text "Resource(" = false)
    (hsub : startsWithText text "SubResource(" = false)
    (hext : startsWithText text "ExtResource(" = false) : ReadAsWritten text := by
  have hvalue : writtenValue text = .variant text := by
    rw [writtenValue, @writtenNames_eq_none "Resource" text hresource,
      @writtenNames_eq_none "SubResource" text hsub, @writtenNames_eq_none "ExtResource" text hext]
  rw [ReadAsWritten, hvalue, getVarstrValue]
  simp [hresource, hsub, hext]

section Names

variable {id uid path : String}

theorem writtenNames_name {kind : String} (hid : '"' ∉ id.toList) :
    writtenNames kind (reference kind id) = some [id] := by
  have hsplit := splitAtText_of_unquoted hid
  rw [writtenNames_reference (by simpa [hsplit] using hid), hsplit]

theorem writtenValue_subResource (hid : '"' ∉ id.toList) :
    writtenValue (reference "SubResource" id) = .subResourceId id := by
  rw [writtenValue, writtenNames_name hid]

theorem writtenValue_extResource (hid : '"' ∉ id.toList) :
    writtenValue (reference "ExtResource" id) = .extResourceId id := by
  have hsub : writtenNames "SubResource" (reference "ExtResource" id) = none :=
    writtenNames_eq_none (by simp [startsWithText, toList_reference, List.isPrefixOf])
  rw [writtenValue, writtenNames_name hid, hsub]

/-- A reference to a resource is none of the other references. -/
theorem writtenNames_resource (inner : String) :
    writtenNames "SubResource" (reference "Resource" inner) = none ∧
      writtenNames "ExtResource" (reference "Resource" inner) = none :=
  ⟨writtenNames_eq_none (by simp [startsWithText, toList_reference, List.isPrefixOf]),
    writtenNames_eq_none (by simp [startsWithText, toList_reference, List.isPrefixOf])⟩

theorem writtenValue_resource (hpath : '"' ∉ path.toList) :
    writtenValue (reference "Resource" path) = .resourcePath path := by
  rw [writtenValue, writtenNames_name hpath, (writtenNames_resource path).1,
    (writtenNames_resource path).2]

theorem writtenValue_uidAndPath (huid : '"' ∉ uid.toList) (hpath : '"' ∉ path.toList) :
    writtenValue (reference "Resource" (uidAndPath uid path)) = .resourcePath path := by
  have hsplit := splitAtText_uidAndPath huid hpath
  have hnames : writtenNames "Resource" (reference "Resource" (uidAndPath uid path)) =
      some [uid, path] := by
    rw [writtenNames_reference (by simpa [hsplit] using ⟨huid, hpath⟩), hsplit]
  rw [writtenValue, hnames, (writtenNames_resource _).1, (writtenNames_resource _).2]

/-- **A plain name of a sub-resource is read as it is written.** -/
theorem readAsWritten_subResource (hid : PlainName id) :
    ReadAsWritten (reference "SubResource" id) := by
  rw [ReadAsWritten, getVarstrValue_subResource hid, writtenValue_subResource hid.unquoted]

/-- **So is one of an external resource, if it does not contain another reference.** -/
theorem readAsWritten_extResource (hid : PlainName id)
    (hsub : containsText (reference "ExtResource" id) "SubResource(" = false) :
    ReadAsWritten (reference "ExtResource" id) := by
  rw [ReadAsWritten, getVarstrValue_extResource hid hsub, writtenValue_extResource hid.unquoted]

/-- **So is a path.** -/
theorem readAsWritten_resource (hpath : PlainName path)
    (hsub : containsText (reference "Resource" path) "SubResource(" = false)
    (hext : containsText (reference "Resource" path) "ExtResource(" = false) :
    ReadAsWritten (reference "Resource" path) := by
  rw [ReadAsWritten, getVarstrValue_resource hpath hsub hext, writtenValue_resource hpath.unquoted]

/-- **So is a uid with a path.** -/
theorem readAsWritten_uidAndPath (huid : PlainName uid) (hpath : PlainName path)
    (hsub : containsText (reference "Resource" (uidAndPath uid path)) "SubResource(" = false)
    (hext : containsText (reference "Resource" (uidAndPath uid path)) "ExtResource(" = false) :
    ReadAsWritten (reference "Resource" (uidAndPath uid path)) := by
  rw [ReadAsWritten, getVarstrValue_uidAndPath huid hpath hsub hext,
    writtenValue_uidAndPath huid.unquoted hpath.unquoted]

/-- **A path that contains a reference to a sub-resource is read as one itself.** -/
theorem getVarstrValue_misread (hpath : PlainName path)
    (hsub : containsText path "SubResource(" = true) :
    getVarstrValue (reference "Resource" path) = some (.subResourceId path) := by
  have hstarts : startsWithText (reference "Resource" path) "Resource(" = true :=
    startsWithText_reference "Resource" path
  have hcontains : containsText (reference "Resource" path) "SubResource(" = true := by
    rw [containsText_iff] at hsub ⊢
    refine hsub.trans ?_
    rw [reference, String.toList_append, String.toList_append]
    exact List.infix_append _ _ _
  rw [getVarstrValue, quotedName_reference (by decide) hpath.enclosed, hpath.trimmed]
  simp [hstarts, hcontains]

end Names

end Backstitch
