import FetchQuery.Scope
import FetchQuery.Token

/-!
# Errors in a query text

A syntax error is a cause and the position of the token it points at. The wording
of every cause is in `SyntaxFault.message`.
-/

set_option autoImplicit false

namespace FetchQuery

/-- What a query text should have continued with. -/
inductive Expectation where
  | select
  | source
  | by (clause : Keyword)
  | rowCount (clause : Keyword)
  | rowCountEnd (clause : Keyword)
  | selectList
  | columnName
  | columnAfterDot
  | aggregateEnd (function : AggregateFunction)
  | label
  | entityName
  | joinAfter (word : Keyword)
  | joinedEntity
  | joinCondition
  | joinEquality
  | groupEnd
  | operatorAfterLiteral
  | condition
  | nullAfterIs
  | negatedTest
  | operatorAfterColumn (column : ColumnRef)
  | pattern
  | listStart
  | listEnd
  | between
  | betweenAnd
  | negativeNumber
  | literal
deriving DecidableEq, Repr

/-- How a message names what was expected. -/
def Expectation.phrase : Expectation → String
  | .select => "SELECT"
  | .source => "FROM"
  | .by clause => "BY after " ++ clause.spelling
  | .rowCount clause => "row count after " ++ clause.spelling
  | .rowCountEnd clause => "')' to close " ++ clause.spelling
  | .selectList => "column list after SELECT"
  | .columnName => "column name"
  | .columnAfterDot => "column name after '.'"
  | .aggregateEnd function => "')' to close " ++ function.sql
  | .label => "alias after AS"
  | .entityName => "entity name"
  | .joinAfter word => "JOIN after " ++ word.spelling
  | .joinedEntity => "entity name after JOIN"
  | .joinCondition => "ON after joined entity"
  | .joinEquality => "'=' in JOIN condition"
  | .groupEnd => "')' to close parenthesized expression"
  | .operatorAfterLiteral => "comparison operator after literal"
  | .condition => "condition"
  | .nullAfterIs => "NULL after IS"
  | .negatedTest => "LIKE, IN or BETWEEN after NOT"
  | .operatorAfterColumn column => "comparison operator after column '" ++ column.display ++ "'"
  | .pattern => "string pattern after LIKE"
  | .listStart => "'(' after IN"
  | .listEnd => "')' to close IN list"
  | .between => "BETWEEN"
  | .betweenAnd => "AND between BETWEEN bounds"
  | .negativeNumber => "number after '-'"
  | .literal => "literal value"

/-- Why a query text is not a statement. -/
inductive SyntaxFault where
  | scan (cause : ScanFault)
  | scope (cause : ScopeFault)
  | expected (what : Expectation) (found : String)
  | commonTableExpression
  | having
  | setOperation
  | subquery
  | unsupportedFunction (name : String)
  | unsupportedJoin (word : Keyword)
  | schemaQualifiedEntity
  | trailing (found : String)
  | rowCountNumber (clause : Keyword) (text : String)
  | topAndLimit
  | labelledWildcard
  | starArgument (function : AggregateFunction) (distinct : Bool)
  | joinConjunction
  | comparisonWithNull
  | comparisonOfColumns
  | nullLiteral
  | numberRange (text : String)
  | wildcardInAggregate
  | ungroupedColumn (column : ColumnRef)
  | repeatedLabel (label : String)
deriving DecidableEq, Repr

/-- The text that reports a syntax fault. -/
def SyntaxFault.message : SyntaxFault → String
  | .scan cause => cause.message
  | .scope cause => cause.message
  | .expected what found => "Expected " ++ what.phrase ++ ", found " ++ found
  | .commonTableExpression => "Common table expressions (WITH) are not supported"
  | .having => "HAVING is not supported"
  | .setOperation => "Set operations (UNION) are not supported"
  | .subquery => "Subqueries are not supported"
  | .unsupportedFunction name =>
    "Unsupported function '" ++ name ++ "'; only COUNT, SUM, AVG, MIN and MAX are supported"
  | .unsupportedJoin word => word.spelling ++ " JOIN is not supported"
  | .schemaQualifiedEntity => "Schema-qualified entity names are not supported"
  | .trailing found => "Unexpected " ++ found ++ " after end of statement"
  | .rowCountNumber clause text =>
    clause.spelling ++ " expects a non-negative integer, found " ++ text
  | .topAndLimit => "TOP and LIMIT cannot both be specified"
  | .labelledWildcard => "A wildcard cannot have an alias"
  | .starArgument function distinct =>
    "'*' is only valid in COUNT(*), not in " ++ function.sql ++
      "(" ++ (if distinct then "DISTINCT " else "") ++ "*)"
  | .joinConjunction => "JOIN conditions must be a single column equality"
  | .comparisonWithNull => "Use IS NULL or IS NOT NULL to compare with NULL"
  | .comparisonOfColumns => "Comparisons between two columns are not supported"
  | .nullLiteral => "NULL is not allowed here; use IS NULL or IS NOT NULL"
  | .numberRange text => "Numeric literal " ++ text ++ " is out of range"
  | .wildcardInAggregate => "'*' cannot be combined with aggregate functions or GROUP BY"
  | .ungroupedColumn column =>
    "Column '" ++ column.display ++
      "' must appear in GROUP BY or be used in an aggregate function"
  | .repeatedLabel label =>
    "Duplicate column alias '" ++ label ++ "'; give each column a distinct alias"

/-- An error in a query text and the position it points at. -/
structure SyntaxError where
  fault : SyntaxFault
  position : Position
deriving DecidableEq, Repr

/-- The text of a syntax error with its position. -/
def SyntaxError.message (e : SyntaxError) : String :=
  e.fault.message ++ " at line " ++ Nat.repr e.position.line ++ ", column " ++
    Nat.repr e.position.column

end FetchQuery
