import FetchQuery.Window
import FetchQuery.Proofs.Sql.InStepStatement
import FetchQuery.Proofs.Text.Lines
import FetchQuery.Proofs.Token.Layout

/-!
# Errors point at tokens

A syntax error is reported at the position of a token that is no comment
(`exists_token_of_parse_eq_error`). A position counts lines and columns as the window on the source
does, so the caret of the window stands below the first character of that token, whatever the width
of the window (`pointsAt_around`). Only the end of the input has no character to point at.
-/

set_option autoImplicit false

namespace FetchQuery

open Text

namespace Window

/-- The caret stands below the first character of the token. -/
def PointsAt (w : Window) (t : Token) : Prop :=
  w.caret < w.snippet.length ∧
    ∃ c, t.text.toList.head? = some c ∧ w.snippet.toList[w.caret]? = some c

/-- The window is moved along the line but keeps its column: below the caret is the character of
that column. -/
theorem getElem?_snippet (message : String) {source : String} {line column : Nat} (width : Nat)
    (h : column - 1 < (lineOf source line).length) :
    (around message source line column width).snippet.toList[
        (around message source line column width).caret]? =
      (lineOf source line)[column - 1]? := by
  simp only [around, String.toList_ofList]
  generalize lineOf source line = shown at h
  have hwidth : width / 2 < max width 1 := by omega
  rw [Nat.min_eq_left h.le, List.getElem?_drop]
  -- the window begins at or before the column and ends behind it
  rw [List.getElem?_take_of_lt (by omega)]
  congr 1
  omega

/-- A character that is not blank is shown in its line as it is. -/
theorem getElem?_lineOf {source : String} {front rest : List Char} {c : Char}
    (hsource : source.toList = front ++ c :: rest) (hc : isBlank c = false) :
    (lineOf source (Position.behind front).line)[(Position.behind front).column - 1]? = some c := by
  have hne : ∀ d, isBlank d = true → c ≠ d := by
    rintro d hd rfl
    rw [hc] at hd
    exact absurd hd Bool.false_ne_true
  obtain ⟨line, hline, hcolumn⟩ := exists_line_at front rest
    (hne '\n' (by decide)) (hne '\r' (by decide))
  simp only [lineOf, lines, Position.behind, Nat.add_sub_cancel_left, hsource, List.getElem?_map,
    hline, Option.map_some, Option.getD_some, String.toList_ofList, hcolumn,
    if_neg (hne '\t' (by decide))]

/-- A window on the position of a token points at it. -/
theorem pointsAt_around {source : String} {t : Token} (ht : t ∈ tokenize source)
    (hkind : t.kind ≠ .endOfInput) (message : String) (width : Nat) :
    (around message source t.position.line t.position.column width).PointsAt t := by
  obtain ⟨front, c, cs, rest, hsource, htext, hc, hposition⟩ := exists_front_of_mem ht hkind
  have hshown := getElem?_lineOf hsource hc
  rw [← hposition] at hshown
  obtain ⟨hcolumn, -⟩ := List.getElem?_eq_some_iff.1 hshown
  have hcaret := getElem?_snippet message width hcolumn
  rw [hshown] at hcaret
  refine ⟨?_, c, by rw [htext, List.head?_cons], hcaret⟩
  rw [← String.length_toList]
  exact (List.getElem?_eq_some_iff.1 hcaret).1

end Window

namespace Sql

/-- An error has the position of a token that is no comment. -/
theorem exists_token_of_parse_eq_error {source : String} {lenient : Bool} {e : SyntaxError}
    (h : parse source lenient = .error e) :
    ∃ t ∈ tokenize source, t.kind.isComment = false ∧ e.position = t.position := by
  have hagree := agree_parse (SameTokens.refl source) lenient
  rw [h] at hagree
  cases hagree with
  | error herror =>
    obtain ⟨n, t, -, ht, -, hposition, -⟩ := herror.positions
    obtain ⟨hmem, hcomment⟩ := List.mem_filter.1 (List.mem_of_getElem? ht)
    exact ⟨t, hmem, by simpa using hcomment, hposition⟩

/-- A statement that is not accepted is reported at a token of its text, and every window on the
error points at that token unless it is the end of the text. -/
theorem pointsAt_of_parse_eq_error {source : String} {lenient : Bool} {e : SyntaxError}
    (h : parse source lenient = .error e) :
    ∃ t ∈ tokenize source, t.kind.isComment = false ∧
      e.position.line = t.position.line ∧ e.position.column = t.position.column ∧
      (t.kind ≠ .endOfInput → ∀ width, (Window.ofError e source width).PointsAt t) := by
  obtain ⟨t, ht, hcomment, hposition⟩ := exists_token_of_parse_eq_error h
  refine ⟨t, ht, hcomment, by rw [hposition], by rw [hposition], ?_⟩
  intro hkind width
  rw [Window.ofError, hposition]
  exact Window.pointsAt_around ht hkind e.fault.message width

/-- A mistake in the second line, behind a comment, a carriage return and tabs. -/
def tabbedMistake : String :=
  "select a -- and\r\n\tfrom b where\tc != null"

theorem pointsAt_of_parse_eq_error_tabbedMistake :
    parse tabbedMistake false = .error ⟨.comparisonWithNull, ⟨2, 20, 36⟩⟩ ∧
      ∃ t ∈ tokenize tabbedMistake, t.kind.isComment = false ∧
        2 = t.position.line ∧ 20 = t.position.column ∧
        (t.kind ≠ .endOfInput → ∀ width,
          (Window.ofError ⟨.comparisonWithNull, ⟨2, 20, 36⟩⟩ tabbedMistake width).PointsAt t) := by
  have hfails : parse tabbedMistake false = .error ⟨.comparisonWithNull, ⟨2, 20, 36⟩⟩ := by
    decide +kernel
  exact ⟨hfails, pointsAt_of_parse_eq_error hfails⟩

end Sql

end FetchQuery
