import FetchQuery.Window
import Mathlib.Data.Option.Basic

/-!
# Windows stay within their line

A window begins half its width before the place of its column, or further left if the line ends too
early to fill it, and it is as wide as was asked for unless the line is shorter (`around_eq`). So its
slice lies in the line, and its caret below the snippet or right behind it. In arithmetic with a
largest number only one sum can fail (`around?_eq_ite`), and it does not where the width and twice
the length of the line are below the bound (`sum_lt`).
-/

set_option autoImplicit false

namespace FetchQuery.Window

/-- The text of a source line, counted from one. A line that does not exist is empty. -/
def textOf (source : String) (line : Nat) : String :=
  ((Text.lines source)[line - 1]?).getD ""

/-- A character as it is shown: a tab is a blank. -/
def untab (c : Char) : Char :=
  if c = '\t' then ' ' else c

theorem lineOf_eq (source : String) (line : Nat) :
    lineOf source line = (textOf source line).toList.map untab := rfl

theorem length_lineOf (source : String) (line : Nat) :
    (lineOf source line).length = (textOf source line).length := by
  rw [lineOf_eq, List.length_map, String.length_toList]

/-! ## Where a window begins and ends -/

/-- The place at which a window begins: half its width before the index, but not so late that the
line ends before the window is full. -/
def first (length index width : Nat) : Nat :=
  min (index - width / 2) (length - width)

section Places

variable {length index width : Nat}

/-- A window that is moved left from the end of the line begins at its first place. -/
theorem first_eq (length index width : Nat) :
    min (index - width / 2) (min (index - width / 2 + width) length - width) =
      first length index width := by
  rw [first]
  omega

/-- A window ends behind as many characters as it is wide, or behind the whole line. -/
theorem first_add_eq (length index width : Nat) :
    min (index - width / 2 + width) length = first length index width + min width length := by
  rw [first]
  omega

theorem first_add_le (length index width : Nat) :
    first length index width + min width length ≤ length := by
  rw [first]
  omega

theorem first_le (length index width : Nat) : first length index width ≤ index := by
  rw [first]
  omega

theorem index_sub_first_le (h : index ≤ length) :
    index - first length index width ≤ min width length := by
  rw [first]
  omega

/-- The window ends behind the index, unless the line ends there. -/
theorem index_sub_first_lt_iff (h : index ≤ length) (hwidth : 0 < width) :
    index - first length index width < min width length ↔ index < length := by
  rw [first]
  omega

/-- Before the window is cut off at the end of the line it ends within twice the length of the line,
unless it begins with the line. -/
theorem sum_lt {bound : Nat} (h : index ≤ length) (hlength : 2 * length < bound)
    (hwidth : width < bound) : index - width / 2 + width < bound := by
  omega

end Places

/-! ## What a window shows -/

/-- The window said by its first place and its length instead of by its two ends. -/
theorem around_eq (message source : String) (line column width : Nat) :
    around message source line column width =
      let text := textOf source line
      let index := min (column - 1) text.length
      let start := first text.length index (max width 1)
      ⟨message, line, column,
        String.ofList (((text.toList.map untab).drop start).take (min (max width 1) text.length)),
        index - start⟩ := by
  simp only [around, length_lineOf, first_eq]
  rw [first_add_eq, List.drop_take, Nat.add_sub_cancel_left, lineOf_eq]

/-- The snippet is as long as the window is wide, unless the whole line is shorter. -/
theorem length_snippet_around (message source : String) (line column width : Nat) :
    (around message source line column width).snippet.length =
      min (max width 1) (textOf source line).length := by
  rw [around_eq]
  generalize textOf source line = text
  have hstop := first_add_le text.length (min (column - 1) text.length) (max width 1)
  rw [String.length_ofList, List.length_take, List.length_drop, List.length_map,
    String.length_toList]
  omega

/-- The window in arithmetic with numbers below a bound. A sum that reaches the bound, a slice that
is not within the line and a difference below zero each leave no window. -/
def around? (bound : Nat) (message source : String) (line column width : Nat) : Option Window := do
  let shown := lineOf source line
  let width := max width 1
  let index := min (column - 1) shown.length
  let start := index - width / 2
  guard (start + width < bound)
  let stop := min (start + width) shown.length
  let start := min start (stop - width)
  guard (start ≤ stop ∧ stop ≤ shown.length)
  let snippet := (shown.take stop).drop start
  guard (start ≤ index)
  return ⟨message, line, column, String.ofList snippet, index - start⟩

/-- Only the sum can fail. -/
theorem around?_eq_ite (bound : Nat) (message source : String) (line column width : Nat) :
    around? bound message source line column width =
      let index := min (column - 1) (textOf source line).length
      if index - max width 1 / 2 + max width 1 < bound then
        some (around message source line column width)
      else none := by
  simp only [around?, around, ← length_lineOf, first_eq]
  generalize lineOf source line = shown
  generalize min (column - 1) shown.length = index
  -- the slice and the difference are within range whatever the sum is
  have hslice : first shown.length index (max width 1) ≤
        first shown.length index (max width 1) + min (max width 1) shown.length ∧
      first shown.length index (max width 1) + min (max width 1) shown.length ≤ shown.length :=
    ⟨Nat.le_add_right _ _, first_add_le _ _ _⟩
  have hcaret := first_le shown.length index (max width 1)
  rw [first_add_eq, (Option.guard_eq_some' ()).2 hslice, (Option.guard_eq_some' ()).2 hcaret]
  by_cases hsum : index - max width 1 / 2 + max width 1 < bound
  · rw [(Option.guard_eq_some' ()).2 hsum, if_pos hsum]
    rfl
  · have hfails : (guard (index - max width 1 / 2 + max width 1 < bound) : Option Unit) = none :=
      if_neg hsum
    rw [hfails, if_neg hsum]
    rfl

/-- A window is exact at every position, also at one outside the source. Its snippet is the line with
tabs as blanks, for as many characters as the window is wide or the line has, and its caret is the
place of the column in it. No step of the computation is out of range unless the one sum overflows,
and that is below the bound where the width and twice the length of the line are. The caret stands
below the snippet exactly if the column is in the line, and else right behind it. -/
theorem around_within_line (bound : Nat) (message source : String) (line column width : Nat) :
    let text := textOf source line
    let w := max width 1
    let index := min (column - 1) text.length
    let start := min (index - w / 2) (text.length - w)
    let window := around message source line column width
    (index - w / 2 + w < bound →
      around? bound message source line column width = some window) ∧
    (2 * text.length < bound → w < bound →
      around? bound message source line column width = some window) ∧
    window.message = message ∧ window.line = line ∧ window.column = column ∧
    window.snippet.toList = ((text.toList.map untab).drop start).take (min w text.length) ∧
    window.snippet.length = min w text.length ∧
    start ≤ index ∧ window.caret = index - start ∧
    window.caret ≤ window.snippet.length ∧
    (window.caret < window.snippet.length ↔ column - 1 < text.length) := by
  intro text w index start window
  have hindex : index ≤ text.length := Nat.min_le_right _ _
  have hwindow : window = ⟨message, line, column,
      String.ofList (((text.toList.map untab).drop start).take (min w text.length)),
      index - start⟩ := around_eq message source line column width
  have hlength : window.snippet.length = min w text.length := length_snippet_around _ _ _ _ _
  have hcaret : window.caret = index - start := by rw [hwindow]
  have hwithin : index - w / 2 + w < bound →
      around? bound message source line column width = some window := by
    intro hsum
    rw [around?_eq_ite]
    exact if_pos hsum
  refine ⟨hwithin, ?_, rfl, rfl, rfl, ?_, hlength, first_le _ _ _, hcaret, ?_, ?_⟩
  · intro hline hwidth
    exact hwithin (sum_lt hindex hline hwidth)
  · rw [hwindow, String.toList_ofList]
  · rw [hcaret, hlength]
    exact index_sub_first_le hindex
  · rw [hcaret, hlength]
    calc index - start < min w text.length
      _ ↔ index < text.length := index_sub_first_lt_iff hindex (Nat.le_max_right _ _)
      _ ↔ column - 1 < text.length := by omega

/-- Two lines, the second with tabs. -/
def tabbedLines : String :=
  "a\r\n\tb\tc"

/-- The window at the end of a line is moved left, and one behind the line may have any width that a
machine word holds. -/
theorem around_within_line_tabbedLines :
    around? UInt64.size "bad" tabbedLines 2 4 3 = some ⟨"bad", 2, 4, "b c", 2⟩ ∧
      around? UInt64.size "bad" tabbedLines 2 9 (UInt64.size - 1) =
        some ⟨"bad", 2, 9, " b c", 4⟩ := by
  have hmoved := (around_within_line UInt64.size "bad" tabbedLines 2 4 3).1 (by decide +kernel)
  have hwide := (around_within_line UInt64.size "bad" tabbedLines 2 9 (UInt64.size - 1)).2.1
    (by decide +kernel) (by decide +kernel)
  rw [hmoved, hwide]
  decide +kernel

end FetchQuery.Window
