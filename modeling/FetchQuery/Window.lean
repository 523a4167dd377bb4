import FetchQuery.SyntaxError
import FetchQuery.Text.Basic

/-!
# Windows on a source line

An error is shown with a window of its source line, of a fixed width and centred on
the column of the error. Near the ends of the line the window is moved so that it
stays full; positions outside the source are clamped.
-/

set_option autoImplicit false

namespace FetchQuery

/-- A message with a part of the source line it points at. The caret is the place
of the column within the snippet. -/
structure Window where
  message : String
  line : Nat
  column : Nat
  snippet : String
  caret : Nat
deriving DecidableEq, Repr

namespace Window

/-- The width of a window unless another is asked for. -/
def defaultWidth : Nat :=
  30

/-- The characters of a source line, counted from one, with tabs shown as blanks. A
line that does not exist is empty. -/
def lineOf (source : String) (line : Nat) : List Char :=
  (((Text.lines source)[line - 1]?).getD "").toList.map fun c => if c = '\t' then ' ' else c

/-- The window on a column of a source line. -/
def around (message source : String) (line column width : Nat) : Window :=
  let shown := lineOf source line
  let width := max width 1
  let index := min (column - 1) shown.length
  let stop := min (index - width / 2 + width) shown.length
  let start := min (index - width / 2) (stop - width)
  ⟨message, line, column, String.ofList ((shown.take stop).drop start), index - start⟩

/-- The window on a syntax error. -/
def ofError (e : SyntaxError) (source : String) (width : Nat) : Window :=
  around e.fault.message source e.position.line e.position.column width

/-- The window as three lines of text: the message with its position, the snippet,
and a caret below the column. -/
def display (w : Window) : String :=
  w.message ++ " (line " ++ Nat.repr w.line ++ ", column " ++ Nat.repr w.column ++ ")\n  " ++
    w.snippet ++ "\n  " ++ String.ofList (List.replicate w.caret ' ') ++ "^"

end Window

end FetchQuery
