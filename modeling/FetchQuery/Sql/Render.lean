import FetchQuery.Statement
import FetchQuery.Text.Basic
import FetchQuery.Text.Doubled

/-!
# Statements as SQL text

A statement is written as a list of clauses, one on each line or all on one line.
Columns of the root entity carry its qualifier as soon as there are joins. Conditions
are put in parentheses only where the precedence of `OR`, `AND` and `NOT` asks for
it. The comments of a statement come first, each of their lines on a line of its own.

A name is written as it is when it consists of basic Latin letters, digits and
underscores, does not begin with a digit and is no reserved word. Every other name
is written in brackets.
-/

set_option autoImplicit false

namespace FetchQuery.Sql

/-! ## Names -/

/-- Whether a name begins with a basic Latin letter or an underscore and continues
with these or digits. -/
def isPlainName : List Char → Bool
  | [] => false
  | c :: cs => (c.isAlpha || c == '_') && cs.all fun d => d.isAlphanum || d == '_'

/-- A name as it is written in SQL. -/
def quoteName (name : String) : String :=
  if isPlainName name.toList && (Keyword.ofWord? name).isNone then name
  else Text.enclose '[' ']' name

/-! ## Clauses -/

/-- The qualifier that columns of the root entity are written with, if any. -/
def rootQualifier (s : Statement) : Option String :=
  if s.joins.isEmpty then none else some s.source.qualifier

/-- A name behind its qualifier. -/
def qualifiedName (qualifier name : String) : String :=
  quoteName qualifier ++ "." ++ quoteName name

/-- A column reference, where `root` is the qualifier of the root's columns. -/
def columnText (root : Option String) (c : ColumnRef) : String :=
  match c.qualifier.or root with
  | some q => qualifiedName q c.name
  | none => quoteName c.name

/-- The wildcard of an entity. -/
def wildcardText : Option String → String
  | some q => quoteName q ++ ".*"
  | none => "*"

/-- An aggregate call. -/
def aggregateText (root : Option String) (call : AggregateCall) : String :=
  let argument := match call.argument with
    | .star => "*"
    | .column c => columnText root c
  call.function.sql ++ "(" ++ (if call.distinct then "DISTINCT " else "") ++ argument ++ ")"

/-- What an item of the select list produces. -/
def valueText (root : Option String) : SelectValue → String
  | .column c => columnText root c
  | .wildcard owner => wildcardText (owner.or root)
  | .aggregate call => aggregateText root call

/-- A label behind `AS`, if there is one. -/
def labelText : Option String → String
  | some label => " AS " ++ quoteName label
  | none => ""

/-- An item of the select list. -/
def itemText (root : Option String) (item : SelectItem) : String :=
  valueText root item.value ++ labelText item.label

/-- The list of an `IN` test. -/
def literalList (values : List Literal) : String :=
  ", ".intercalate (values.map Literal.sql)

/-- A test of a column, or its negated form where SQL has one. -/
def testText (column : String) (negated : Bool) : Test → String
  | .compare op value => column ++ " " ++ op.sql ++ " " ++ value.sql
  | .null expected => column ++ (if expected then " IS NULL" else " IS NOT NULL")
  | .among values =>
    column ++ (if negated then " NOT IN (" else " IN (") ++ literalList values ++ ")"
  | .between low high =>
    column ++ (if negated then " NOT BETWEEN " else " BETWEEN ") ++ low.sql ++ " AND " ++ high.sql
  | .like pattern =>
    column ++ (if negated then " NOT LIKE " else " LIKE ") ++ (Literal.text pattern).sql

/-- Whether SQL has a form of its own for the negation of a test. -/
def hasNegatedForm : Test → Bool
  | .among _ => true
  | .between _ _ => true
  | .like _ => true
  | _ => false

/-- How tightly a connective binds: `OR` 1, `AND` 2. -/
def connectiveLevel : Connective → Nat
  | .or => 1
  | .and => 2

/-- A text in parentheses when it binds looser than the level around it. -/
def parenthesized (level around : Nat) (text : String) : String :=
  if level < around then "(" ++ text ++ ")" else text

/-- A condition within a context that binds at level `around`. A connective binds as
`connectiveLevel` says, `NOT` at level 3 and a test at level 4; the right operand of a
connective must bind tighter than the connective. -/
def conditionText (root : Option String) : Condition → Nat → String
  | .test column test, _ => testText (columnText root column) false test
  | .binary op left right, around =>
    parenthesized (connectiveLevel op) around
      (conditionText root left (connectiveLevel op) ++ " " ++ op.sql ++ " " ++
        conditionText root right (connectiveLevel op + 1))
  | .not (.test column test), around =>
    if hasNegatedForm test then testText (columnText root column) true test
    else parenthesized 3 around ("NOT " ++ testText (columnText root column) false test)
  | .not inner, around => parenthesized 3 around ("NOT " ++ conditionText root inner 4)

/-- The select list; a statement without items selects everything. -/
def selectListText (s : Statement) : String :=
  if s.allItems.isEmpty then "*"
  else ", ".intercalate (s.allItems.map (itemText (rootQualifier s)))

/-- The `SELECT` clause. -/
def selectText (s : Statement) : String :=
  "SELECT" ++ (if s.distinct then " DISTINCT" else "") ++
    (match s.top with
      | some n => " TOP " ++ rowCountText n
      | none => "") ++
    " " ++ selectListText s

/-- The `FROM` clause. -/
def sourceText (source : Source) : String :=
  "FROM " ++ quoteName source.entity ++ labelText source.label

/-- A join, where `root` is the qualifier of the root entity. -/
def joinText (root : String) (j : Join) : String :=
  j.kind.sql ++ " " ++ quoteName j.entity ++ labelText j.label ++ " ON " ++
    qualifiedName (j.parent.getD root) j.fromAttribute ++ " = " ++
    qualifiedName j.qualifier j.toAttribute

/-- A sort column. A label of the select list is written without qualifier. -/
def orderText (s : Statement) (item : OrderItem) : String :=
  (if item.column.qualifier.isNone && (s.labelled? item.column.name).isSome then
      quoteName item.column.name
    else columnText (rootQualifier s) item.column) ++
    " " ++ item.direction.sql

/-- The clauses of a statement in their order. -/
def clauses (s : Statement) : List String :=
  [selectText s, sourceText s.source] ++ s.joins.map (joinText s.source.qualifier) ++
    (match s.condition with
      | some e => ["WHERE " ++ conditionText (rootQualifier s) e 0]
      | none => []) ++
    (if s.groupBy.isEmpty then []
      else ["GROUP BY " ++ ", ".intercalate (s.groupBy.map (columnText (rootQualifier s)))]) ++
    (if s.orderBy.isEmpty then []
      else ["ORDER BY " ++ ", ".intercalate (s.orderBy.map (orderText s))])

/-- The lines of the comments of a statement, trimmed. -/
def commentLines (s : Statement) : List String :=
  s.comments.flatMap fun comment => (Text.lines comment).map Text.trim

/-- The comments of a statement as line comments. -/
def commentText (s : Statement) : String :=
  String.join ((commentLines s).map fun line => "-- " ++ line ++ "\n")

/-- How the clauses of a statement are laid out. -/
inductive Layout where
  | pretty | compact
deriving DecidableEq, Repr

/-- What stands between two clauses. -/
def Layout.separator : Layout → String
  | .pretty => "\n"
  | .compact => " "

/-- The SQL text of a statement. -/
def render (layout : Layout) (s : Statement) : String :=
  commentText s ++ layout.separator.intercalate (clauses s)

end FetchQuery.Sql
