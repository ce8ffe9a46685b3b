/-
# The split view of a text diff

The lines of a diff become rows with an old and a new side.  An added line goes into the
earliest row of the deleted lines at the end that has no new side yet; where the last row has
one, it gets a row of its own.  The rows are counted with 32 bits.
-/

import Backstitch.Library.RustText
import Mathlib.Algebra.Order.Ring.Int
import Mathlib.Data.List.Induction

namespace Backstitch

structure TextDiffLine where
  newLineNo : ℤ
  oldLineNo : ℤ
  content : String
  status : String
  deriving DecidableEq

structure ParsedDiffLine where
  oldLineNo : ℤ
  newLineNo : ℤ
  oldText : String
  newText : String
  status : String
  deriving DecidableEq

/-- The loop that looks for a row with a new side; `position` is one more than the row that it
starts at. -/
def scanBack (parsedDiff : List ParsedDiffLine) : (position : ℕ) → ℤ
  | 0 => -1
  | position + 1 =>
      if parsedDiff[position]?.any (·.newLineNo = -1) then scanBack parsedDiff position
      else position

/-- `parsed_diff.len() as i32 - 1`, which wraps around. -/
def lastIndex (parsedDiff : List ParsedDiffLine) : ℤ :=
  ((parsedDiff.length : ℤ) - 1).bmod (2 ^ 32)

/-- `j` after the loop. -/
def pairedAfter (parsedDiff : List ParsedDiffLine) : ℤ :=
  if 0 ≤ lastIndex parsedDiff then scanBack parsedDiff ((lastIndex parsedDiff).toNat + 1)
  else lastIndex parsedDiff

/-- One pass of the loop over the lines of a diff. -/
def parseDiffLine (parsedDiff : List ParsedDiffLine) (diffLine : TextDiffLine) :
    List ParsedDiffLine :=
  let line := trimTextEnd diffLine.content
  if diffLine.newLineNo ≥ 0 ∧ diffLine.oldLineNo ≥ 0 then
    parsedDiff ++ [⟨diffLine.oldLineNo, diffLine.newLineNo, line, line, diffLine.status⟩]
  else if diffLine.newLineNo = -1 then
    parsedDiff ++ [⟨diffLine.oldLineNo, -1, line, "", diffLine.status⟩]
  else if diffLine.oldLineNo = -1 then
    let j := pairedAfter parsedDiff
    if j = lastIndex parsedDiff then
      parsedDiff ++ [⟨-1, diffLine.newLineNo, "", line, diffLine.status⟩]
    else
      parsedDiff.modify (j + 1).toNat fun modifiedLine =>
        { modifiedLine with newText := line, newLineNo := diffLine.newLineNo }
  else parsedDiff

/-- The rows of the split view. -/
def displayDiffSplitView (diffLines : List TextDiffLine) : List ParsedDiffLine :=
  diffLines.foldl parseDiffLine []

/-! ## What the two sides show -/

namespace TextDiffLine

def Unchanged (line : TextDiffLine) : Prop := 1 ≤ line.newLineNo ∧ 1 ≤ line.oldLineNo

def Deleted (line : TextDiffLine) : Prop := line.newLineNo = -1 ∧ 1 ≤ line.oldLineNo

def Added (line : TextDiffLine) : Prop := line.oldLineNo = -1 ∧ 1 ≤ line.newLineNo

/-- One of the three kinds of lines of a diff. -/
def OfDiff (line : TextDiffLine) : Prop := line.Unchanged ∨ line.Deleted ∨ line.Added

/-- What the old side is to show of a line: unchanged and deleted lines. -/
def onOldSide (line : TextDiffLine) : Option (ℤ × String) :=
  if 1 ≤ line.oldLineNo then some (line.oldLineNo, trimTextEnd line.content) else none

/-- What the new side is to show of a line: unchanged and added lines. -/
def onNewSide (line : TextDiffLine) : Option (ℤ × String) :=
  if 1 ≤ line.newLineNo then some (line.newLineNo, trimTextEnd line.content) else none

end TextDiffLine

namespace ParsedDiffLine

def onOldSide (row : ParsedDiffLine) : Option (ℤ × String) :=
  if 0 ≤ row.oldLineNo then some (row.oldLineNo, row.oldText) else none

def onNewSide (row : ParsedDiffLine) : Option (ℤ × String) :=
  if 0 ≤ row.newLineNo then some (row.newLineNo, row.newText) else none

end ParsedDiffLine

/-- **The rows show every line once and in order**, on the sides that it belongs to. -/
def ShowsEveryLine (rows : List ParsedDiffLine) (lines : List TextDiffLine) : Prop :=
  rows.filterMap (·.onOldSide) = lines.filterMap (·.onOldSide) ∧
    rows.filterMap (·.onNewSide) = lines.filterMap (·.onNewSide)

/-! ## One line -/

/-- The rows behind the one that the loop stops at have no new side. -/
theorem scanBack_spec (parsedDiff : List ParsedDiffLine) (position : ℕ) :
    ∃ kept ≤ position, scanBack parsedDiff position = (kept : ℤ) - 1 ∧
      ∀ index row, kept ≤ index → index < position → parsedDiff[index]? = some row →
        row.newLineNo = -1 := by
  induction position with
  | zero => exact ⟨0, le_rfl, rfl, fun index row _ hindex _ => absurd hindex (Nat.not_lt_zero _)⟩
  | succ position ih =>
      by_cases hempty : parsedDiff[position]?.any (·.newLineNo = -1) = true
      · obtain ⟨kept, hle, hscan, hbehind⟩ := ih
        refine ⟨kept, by omega, ?_, fun index row hkept hindex hrow => ?_⟩
        · rw [scanBack, if_pos hempty, hscan]
        · rcases Nat.lt_succ_iff_lt_or_eq.mp hindex with hlt | heq
          · exact hbehind index row hkept hlt hrow
          · rw [← heq, hrow, Option.any_some, decide_eq_true_eq] at hempty
            exact hempty
      · refine ⟨position + 1, le_rfl, ?_, fun index row hkept hindex _ => by omega⟩
        rw [scanBack, if_neg hempty]
        push_cast
        omega

/-- Up to 2³² rows, `as i32` gives the last row or a negative number. -/
theorem lastIndex_of_nonneg {parsedDiff : List ParsedDiffLine}
    (hlength : parsedDiff.length ≤ 2 ^ 32) (hlast : 0 ≤ lastIndex parsedDiff) :
    (lastIndex parsedDiff).toNat + 1 = parsedDiff.length := by
  rw [lastIndex, Int.bmod] at hlast ⊢
  split_ifs at hlast ⊢ <;> omega

/-- Up to 2³² rows, an added line that is paired goes into a row that has no new side, with
only such rows behind it. -/
theorem pairedAfter_spec {parsedDiff : List ParsedDiffLine}
    (hlength : parsedDiff.length ≤ 2 ^ 32)
    (hpaired : pairedAfter parsedDiff ≠ lastIndex parsedDiff) :
    ∃ front row back, parsedDiff = front ++ row :: back ∧
      (pairedAfter parsedDiff + 1).toNat = front.length ∧
      ∀ behind ∈ row :: back, behind.newLineNo = -1 := by
  by_cases hlast : 0 ≤ lastIndex parsedDiff
  · have hend := lastIndex_of_nonneg hlength hlast
    rw [pairedAfter, if_pos hlast, hend] at hpaired ⊢
    obtain ⟨kept, hle, hscan, hbehind⟩ := scanBack_spec parsedDiff parsedDiff.length
    rw [hscan] at hpaired ⊢
    have hkept : kept < parsedDiff.length := by omega
    refine ⟨parsedDiff.take kept, parsedDiff[kept], parsedDiff.drop (kept + 1), ?_, ?_, ?_⟩
    · rw [List.getElem_cons_drop, List.take_append_drop]
    · rw [List.length_take]
      omega
    · intro behind hmem
      rw [List.getElem_cons_drop] at hmem
      obtain ⟨index, hindex, hrow⟩ := List.mem_iff_getElem.mp hmem
      rw [List.length_drop] at hindex
      apply hbehind (kept + index) behind (by omega) (by omega)
      rw [← hrow, List.getElem_drop, List.getElem?_eq_getElem]
  · rw [pairedAfter, if_neg hlast] at hpaired
    exact absurd rfl hpaired

theorem modify_length_append {α : Type*} (front back : List α) (row : α) (change : α → α) :
    (front ++ row :: back).modify front.length change = front ++ change row :: back := by
  induction front with
  | nil => rfl
  | cons first front ih => rw [List.cons_append, List.length_cons, List.modify_succ_cons, ih]; rfl

theorem onNewSide_of_empty {row : ParsedDiffLine} (hempty : row.newLineNo = -1) :
    row.onNewSide = none := by
  rw [ParsedDiffLine.onNewSide, hempty, if_neg (by decide)]

/-- An unchanged line is added to both sides. -/
theorem sides_of_unchanged (rows : List ParsedDiffLine) {line : TextDiffLine}
    (hline : line.Unchanged) :
    (parseDiffLine rows line).filterMap (·.onOldSide) =
        rows.filterMap (·.onOldSide) ++ [line].filterMap (·.onOldSide) ∧
      (parseDiffLine rows line).filterMap (·.onNewSide) =
        rows.filterMap (·.onNewSide) ++ [line].filterMap (·.onNewSide) := by
  obtain ⟨hnew, hold⟩ := hline
  have hrow : 0 ≤ line.newLineNo ∧ 0 ≤ line.oldLineNo := by omega
  simp [parseDiffLine, ParsedDiffLine.onOldSide, ParsedDiffLine.onNewSide,
    TextDiffLine.onOldSide, TextDiffLine.onNewSide, hnew, hold, hrow]

/-- A deleted line is added to the old side. -/
theorem sides_of_deleted (rows : List ParsedDiffLine) {line : TextDiffLine}
    (hline : line.Deleted) :
    (parseDiffLine rows line).filterMap (·.onOldSide) =
        rows.filterMap (·.onOldSide) ++ [line].filterMap (·.onOldSide) ∧
      (parseDiffLine rows line).filterMap (·.onNewSide) =
        rows.filterMap (·.onNewSide) ++ [line].filterMap (·.onNewSide) := by
  obtain ⟨hnew, hold⟩ := hline
  have hrow : 0 ≤ line.oldLineNo := by omega
  simp [parseDiffLine, ParsedDiffLine.onOldSide, ParsedDiffLine.onNewSide,
    TextDiffLine.onOldSide, TextDiffLine.onNewSide, hnew, hold, hrow]

/-- Up to 2³² rows, an added line comes last on the new side, wherever its row is. -/
theorem sides_of_added {rows : List ParsedDiffLine} (hlength : rows.length ≤ 2 ^ 32)
    {line : TextDiffLine} (hline : line.Added) :
    (parseDiffLine rows line).filterMap (·.onOldSide) =
        rows.filterMap (·.onOldSide) ++ [line].filterMap (·.onOldSide) ∧
      (parseDiffLine rows line).filterMap (·.onNewSide) =
        rows.filterMap (·.onNewSide) ++ [line].filterMap (·.onNewSide) := by
  obtain ⟨hold, hnew⟩ := hline
  have hpositive : 0 ≤ line.newLineNo := by omega
  have hpresent : line.newLineNo ≠ -1 := by omega
  have hstep : parseDiffLine rows line =
      if pairedAfter rows = lastIndex rows then
        rows ++ [⟨-1, line.newLineNo, "", trimTextEnd line.content, line.status⟩]
      else rows.modify (pairedAfter rows + 1).toNat fun modifiedLine =>
        { modifiedLine with newText := trimTextEnd line.content, newLineNo := line.newLineNo } := by
    simp [parseDiffLine, hold, hpresent]
  rw [hstep]
  split_ifs with hpaired
  · simp [ParsedDiffLine.onOldSide, ParsedDiffLine.onNewSide, TextDiffLine.onOldSide,
      TextDiffLine.onNewSide, hold, hnew, hpositive]
  · obtain ⟨front, row, back, hrows, hindex, hbehind⟩ := pairedAfter_spec hlength hpaired
    obtain ⟨hrow, hback⟩ := List.forall_mem_cons.mp hbehind
    have hsilent : back.filterMap (·.onNewSide) = [] :=
      List.filterMap_eq_nil_iff.mpr fun behind hmem => onNewSide_of_empty (hback behind hmem)
    have hfilled : ParsedDiffLine.onNewSide { row with
        newText := trimTextEnd line.content, newLineNo := line.newLineNo } =
          line.onNewSide := by
      rw [ParsedDiffLine.onNewSide, TextDiffLine.onNewSide, if_pos hpositive, if_pos hnew]
    have habsent : line.onOldSide = none := by
      rw [TextDiffLine.onOldSide, hold, if_neg (by decide)]
    rw [hindex, hrows, modify_length_append]
    constructor
    · rw [List.filterMap_cons_none habsent, List.filterMap_nil, List.append_nil,
        List.filterMap_append, List.filterMap_append]
      rfl
    · rw [List.filterMap_append, List.filterMap_append, List.filterMap_cons,
        List.filterMap_cons_none (onNewSide_of_empty hrow), hsilent, hfilled, List.append_nil]
      rfl

/-- Up to 2³² rows, one line is added to the sides that it belongs to. -/
theorem showsEveryLine_concat {rows : List ParsedDiffLine} (hlength : rows.length ≤ 2 ^ 32)
    {lines : List TextDiffLine} (hshows : ShowsEveryLine rows lines) {line : TextDiffLine}
    (hline : line.OfDiff) : ShowsEveryLine (parseDiffLine rows line) (lines ++ [line]) := by
  have hsides : (parseDiffLine rows line).filterMap (·.onOldSide) =
        rows.filterMap (·.onOldSide) ++ [line].filterMap (·.onOldSide) ∧
      (parseDiffLine rows line).filterMap (·.onNewSide) =
        rows.filterMap (·.onNewSide) ++ [line].filterMap (·.onNewSide) := by
    rcases hline with hunchanged | hdeleted | hadded
    · exact sides_of_unchanged rows hunchanged
    · exact sides_of_deleted rows hdeleted
    · exact sides_of_added hlength hadded
  obtain ⟨hold, hnew⟩ := hsides
  rw [ShowsEveryLine, List.filterMap_append, List.filterMap_append, ← hshows.1, ← hshows.2]
  exact ⟨hold, hnew⟩

/-! ## All lines -/

/-- No line adds more than one row. -/
theorem length_parseDiffLine_le (rows : List ParsedDiffLine) (line : TextDiffLine) :
    (parseDiffLine rows line).length ≤ rows.length + 1 := by
  unfold parseDiffLine
  dsimp only
  split_ifs <;> simp

theorem length_displayDiffSplitView_le (lines : List TextDiffLine) :
    (displayDiffSplitView lines).length ≤ lines.length := by
  induction lines using List.reverseRecOn with
  | nil => exact le_rfl
  | append_singleton front line ih =>
      have hstep := length_parseDiffLine_le (displayDiffSplitView front) line
      rw [displayDiffSplitView, List.foldl_append, List.length_append]
      exact hstep.trans (Nat.add_le_add_right ih 1)

/-- **Up to 2³² + 1 lines, the split view shows every line once and in order.** -/
theorem showsEveryLine_displayDiffSplitView (lines : List TextDiffLine)
    (hlength : lines.length ≤ 2 ^ 32 + 1) (hlines : ∀ line ∈ lines, line.OfDiff) :
    ShowsEveryLine (displayDiffSplitView lines) lines := by
  induction lines using List.reverseRecOn with
  | nil => exact ⟨rfl, rfl⟩
  | append_singleton front line ih =>
      rw [List.length_append, List.length_singleton] at hlength
      have hfront := ih (by omega) fun earlier hmem => hlines earlier (List.mem_append_left _ hmem)
      have hrows := length_displayDiffSplitView_le front
      rw [displayDiffSplitView, List.foldl_append]
      exact showsEveryLine_concat (by omega) hfront (hlines line (by simp))

/-- A deleted line, an added line that is paired with it, and an unchanged line. -/
theorem showsEveryLine_paired :
    ShowsEveryLine
      (displayDiffSplitView [⟨-1, 1, "a", "-"⟩, ⟨1, -1, "b", "+"⟩, ⟨2, 2, "c", " "⟩])
      [⟨-1, 1, "a", "-"⟩, ⟨1, -1, "b", "+"⟩, ⟨2, 2, "c", " "⟩] :=
  showsEveryLine_displayDiffSplitView _ (by decide) (by
    simp [TextDiffLine.OfDiff, TextDiffLine.Unchanged, TextDiffLine.Deleted,
      TextDiffLine.Added])

/-! ## More lines -/

/-- A line is deleted, the given number of empty lines stays, and a line is added. -/
def farApart (count : ℕ) : List TextDiffLine :=
  ⟨-1, 1, "first", "-"⟩ ::
    ((List.range count).map fun index => ⟨index + 1, index + 2, "", " "⟩) ++
      [⟨count + 1, -1, "last", "+"⟩]

theorem foldl_parseDiffLine_of_unchanged {lines : List TextDiffLine}
    (hlines : ∀ line ∈ lines, line.Unchanged) (rows : List ParsedDiffLine) :
    lines.foldl parseDiffLine rows = rows ++ lines.map fun line =>
      ⟨line.oldLineNo, line.newLineNo, trimTextEnd line.content, trimTextEnd line.content,
        line.status⟩ := by
  induction lines generalizing rows with
  | nil => rw [List.foldl_nil, List.map_nil, List.append_nil]
  | cons line lines ih =>
      obtain ⟨⟨hnew, hold⟩, hlines⟩ := List.forall_mem_cons.mp hlines
      have hrow : 0 ≤ line.newLineNo ∧ 0 ≤ line.oldLineNo := by omega
      rw [List.foldl_cons, ih hlines, List.map_cons]
      simp [parseDiffLine, hrow]

/-- Where the number of rows is one more than a multiple of 2³², only the first row is looked
at. -/
theorem parseDiffLine_of_wraps {row : ParsedDiffLine} {rows : List ParsedDiffLine}
    (hwraps : (rows.length : ℤ).bmod (2 ^ 32) = 0) (hempty : row.newLineNo = -1)
    {line : TextDiffLine} (hline : line.Added) :
    parseDiffLine (row :: rows) line =
      { row with newText := trimTextEnd line.content, newLineNo := line.newLineNo } :: rows := by
  obtain ⟨hold, hnew⟩ := hline
  have hpresent : line.newLineNo ≠ -1 := by omega
  have hlast : lastIndex (row :: rows) = 0 := by
    rw [lastIndex, List.length_cons, ← hwraps]
    push_cast
    rw [add_sub_cancel_right]
  have hpaired : pairedAfter (row :: rows) = -1 := by
    simp [pairedAfter, hlast, scanBack, hempty]
  simp [parseDiffLine, hold, hpresent, hpaired, hlast]

/-- Where the number of lines between them is a multiple of 2³², the added line takes the row
of the deleted one. -/
theorem not_showsEveryLine_of_wraps {count : ℕ} (hcount : 0 < count)
    (hwraps : (count : ℤ).bmod (2 ^ 32) = 0) :
    ¬ ShowsEveryLine (displayDiffSplitView (farApart count)) (farApart count) := by
  obtain ⟨more, rfl⟩ := Nat.exists_eq_add_of_lt hcount
  have hbetween : ∀ line ∈ (List.range (0 + more + 1)).map fun index : ℕ =>
      (⟨index + 1, index + 2, "", " "⟩ : TextDiffLine), line.Unchanged := by
    intro line hmem
    obtain ⟨index, -, rfl⟩ := List.mem_map.mp hmem
    exact ⟨by dsimp only; omega, by dsimp only; omega⟩
  have hfirst : parseDiffLine [] ⟨-1, 1, "first", "-"⟩ =
      [⟨1, -1, trimTextEnd "first", "", "-"⟩] := by
    simp [parseDiffLine]
  rintro ⟨-, hnew⟩
  rw [displayDiffSplitView, farApart, List.cons_append, List.foldl_cons, hfirst,
    List.foldl_append, foldl_parseDiffLine_of_unchanged hbetween, List.singleton_append,
    List.foldl_cons, List.foldl_nil, parseDiffLine_of_wraps (by simpa using hwraps) rfl
      ⟨rfl, by dsimp only; omega⟩] at hnew
  -- The new side of the first row is the last line.
  rw [List.filterMap_cons_some (b := ((more : ℤ) + 2, trimTextEnd "last"))
    (by simp [ParsedDiffLine.onNewSide]; omega), List.filterMap_cons_none
    (by simp [TextDiffLine.onNewSide]), List.range_succ_eq_map, List.map_cons, List.cons_append,
    List.filterMap_cons_some (b := ((1 : ℤ), trimTextEnd "")) (by simp [TextDiffLine.onNewSide])] at hnew
  have hhead := congrArg Prod.fst (List.cons.inj hnew).1
  dsimp only at hhead
  omega

theorem ofDiff_farApart (count : ℕ) : ∀ line ∈ farApart count, line.OfDiff := by
  intro line hmem
  rcases List.mem_append.mp hmem with hfront | hlast
  · rcases List.mem_cons.mp hfront with hfirst | hbetween
    · exact .inr (.inl (by rw [hfirst]; exact ⟨rfl, le_rfl⟩))
    · obtain ⟨index, -, hline⟩ := List.mem_map.mp hbetween
      rw [← hline]
      exact .inl ⟨by dsimp only; omega, by dsimp only; omega⟩
  · rw [List.mem_singleton.mp hlast]
    exact .inr (.inr ⟨rfl, by dsimp only; omega⟩)

/-- With 2³² lines between them, the added line takes the row of the deleted one. -/
theorem not_showsEveryLine_farApart :
    (∀ line ∈ farApart (2 ^ 32), line.OfDiff) ∧
      ¬ ShowsEveryLine (displayDiffSplitView (farApart (2 ^ 32))) (farApart (2 ^ 32)) :=
  ⟨ofDiff_farApart _, not_showsEveryLine_of_wraps (by decide) (by decide)⟩

end Backstitch
