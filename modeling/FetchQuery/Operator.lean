import FetchQuery.Keyword

/-!
# Operators and modes of a query

Comparison operators, logical connectives, aggregate functions, kinds of join and
sort directions, each with its spelling in SQL and in FetchXML.
-/

set_option autoImplicit false

namespace FetchQuery

/-- A comparison operator. -/
inductive Comparison where
  | eq | ne | lt | le | gt | ge
deriving DecidableEq, Repr

namespace Comparison

/-- The operator that holds exactly when the given one does not. -/
def negate : Comparison → Comparison
  | .eq => .ne
  | .ne => .eq
  | .lt => .ge
  | .le => .gt
  | .gt => .le
  | .ge => .lt

/-- The operator for exchanged operands. -/
def flip : Comparison → Comparison
  | .eq => .eq
  | .ne => .ne
  | .lt => .gt
  | .le => .ge
  | .gt => .lt
  | .ge => .le

/-- The spelling in SQL. -/
def sql : Comparison → String
  | .eq => "="
  | .ne => "<>"
  | .lt => "<"
  | .le => "<="
  | .gt => ">"
  | .ge => ">="

/-- The spelling in FetchXML. -/
def fetch : Comparison → String
  | .eq => "eq"
  | .ne => "ne"
  | .lt => "lt"
  | .le => "le"
  | .gt => "gt"
  | .ge => "ge"

/-- The operator with a FetchXML name; `neq` is a second name of `ne`. -/
def ofFetch? (name : String) : Option Comparison :=
  match name with
  | "eq" => some .eq
  | "ne" => some .ne
  | "neq" => some .ne
  | "lt" => some .lt
  | "le" => some .le
  | "gt" => some .gt
  | "ge" => some .ge
  | _ => none

end Comparison

/-- A logical connective of two operands. -/
inductive Connective where
  | and | or
deriving DecidableEq, Repr

namespace Connective

/-- The connective that takes the place of the given one under a negation. -/
def dual : Connective → Connective
  | .and => .or
  | .or => .and

/-- The reserved word of a connective. -/
def keyword : Connective → Keyword
  | .and => .and
  | .or => .or

/-- The spelling in SQL. -/
def sql (op : Connective) : String :=
  op.keyword.spelling

/-- The spelling in FetchXML. -/
def fetch : Connective → String
  | .and => "and"
  | .or => "or"

end Connective

/-- An aggregate function. -/
inductive AggregateFunction where
  | count | sum | avg | min | max
deriving DecidableEq, Repr

namespace AggregateFunction

/-- The spelling in SQL. -/
def sql : AggregateFunction → String
  | .count => "COUNT"
  | .sum => "SUM"
  | .avg => "AVG"
  | .min => "MIN"
  | .max => "MAX"

/-- The spelling in FetchXML. -/
def fetch : AggregateFunction → String
  | .count => "count"
  | .sum => "sum"
  | .avg => "avg"
  | .min => "min"
  | .max => "max"

/-- The function with an SQL name, whatever the case of its letters. -/
def ofName? (name : String) : Option AggregateFunction :=
  [count, sum, avg, min, max].find? fun f => f.sql == Text.upper name

/-- The function with a FetchXML name; `countcolumn` is a second name of `count`. -/
def ofFetch? (name : String) : Option AggregateFunction :=
  match name with
  | "count" => some .count
  | "countcolumn" => some .count
  | "sum" => some .sum
  | "avg" => some .avg
  | "min" => some .min
  | "max" => some .max
  | _ => none

end AggregateFunction

/-- Whether rows without a partner are dropped or kept by a join. -/
inductive JoinKind where
  | inner | outer
deriving DecidableEq, Repr

namespace JoinKind

/-- The words that introduce a join in SQL. -/
def sql : JoinKind → String
  | .inner => "INNER JOIN"
  | .outer => "LEFT OUTER JOIN"

/-- The link type in FetchXML. -/
def fetch : JoinKind → String
  | .inner => "inner"
  | .outer => "outer"

end JoinKind

/-- A sort direction. -/
inductive Direction where
  | ascending | descending
deriving DecidableEq, Repr

/-- The spelling of a sort direction in SQL. -/
def Direction.sql : Direction → String
  | .ascending => "ASC"
  | .descending => "DESC"

end FetchQuery
