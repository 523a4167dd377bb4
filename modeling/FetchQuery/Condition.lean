import FetchQuery.Column
import FetchQuery.Literal

/-!
# Conditions

A condition is a tree of tests on single columns, joined by `AND`, `OR` and `NOT`.
-/

set_option autoImplicit false

namespace FetchQuery

/-- A test of one column against literal values. -/
inductive Test where
  | compare (op : Comparison) (value : Literal)
  | null (expected : Bool)
  | among (values : List Literal)
  | between (low high : Literal)
  | like (pattern : String)
deriving DecidableEq

/-- A condition on a row. -/
inductive Condition where
  | test (column : ColumnRef) (test : Test)
  | binary (op : Connective) (left right : Condition)
  | not (inner : Condition)
deriving DecidableEq

namespace Condition

/-- The tests of a condition with their columns, from left to right. -/
def tests : Condition → List (ColumnRef × Test)
  | .test column t => [(column, t)]
  | .binary _ left right => left.tests ++ right.tests
  | .not inner => inner.tests

/-- The columns that a condition refers to, from left to right. -/
def columns (e : Condition) : List ColumnRef :=
  e.tests.map Prod.fst

/-- The column of a condition that is a single test. -/
def column? : Condition → Option ColumnRef
  | .test column _ => some column
  | _ => none

/-- The operands joined by one connective, grouped to the left; no operands give no
condition. -/
def chain? (op : Connective) : List Condition → Option Condition
  | [] => none
  | first :: rest => some (rest.foldl (Condition.binary op) first)

end Condition

end FetchQuery
