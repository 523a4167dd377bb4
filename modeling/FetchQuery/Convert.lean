import FetchQuery.Fetch.Read
import FetchQuery.Fetch.Write
import FetchQuery.Sql.Render
import FetchQuery.Sql.Select
import FetchQuery.Window

/-!
# Between SQL and FetchXML

The two directions from text to text, and the check of an SQL text alone. An error in
an SQL text is shown with a window of its source.
-/

set_option autoImplicit false

namespace FetchQuery

/-- The statement of an SQL text, or a window of the given width on its error. -/
def checkSql (sql : String) (lenient : Bool) (width : Nat) : Except Window Statement :=
  match Sql.parse sql lenient with
  | .ok s => .ok s
  | .error e => .error (Window.ofError e sql width)

/-- The FetchXML text for an SQL text. -/
def sqlToFetch (sql : String) (lenient : Bool) (indent : Nat) : Except Window String :=
  (checkSql sql lenient Window.defaultWidth).map (Fetch.render indent)

/-- The SQL text for a FetchXML text, with the warnings met on the way. -/
def fetchToSql (xml : String) (layout : Sql.Layout) :
    Except Fetch.ReadError (Fetch.Reading String) :=
  (Fetch.read xml).map fun read => ⟨Sql.render layout read.value, read.warnings⟩

/-- The report of an error in an SQL text. -/
def Window.report (w : Window) : String :=
  "Parse error: " ++ w.display

end FetchQuery
