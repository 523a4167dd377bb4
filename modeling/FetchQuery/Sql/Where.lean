import FetchQuery.Sql.Cursor

/-!
# Reading conditions

Conditions are read by precedence: `OR` binds loosest, then `AND`, then `NOT`, then
single tests and parentheses. `OR` and `AND` group to the left. A literal may stand
on either side of a comparison; the column is put first.
-/

set_option autoImplicit false

namespace FetchQuery.Sql

/-- Reads a column reference. -/
def columnRef : Parser ColumnRef := do
  let first ← identifier .columnName
  if ← eatSymbol .dot then
    let name ← identifier .columnAfterDot
    pure ⟨some first, name⟩
  else pure ⟨none, first⟩

/-- Reads a column reference and binds it; a scope fault points at its start. -/
def boundColumn (scope : Scope) : Parser ColumnRef := do
  let position ← currentPosition
  let column ← columnRef
  let (bound, _) ← inScope position (scope.bind column)
  pure bound

/-- The literal that the current token is, after a minus sign or not. A number out
of range is reported at the start of the literal. -/
def literalHere (negative : Bool) (start : Position) : Parser Literal := do
  match ← currentKind, negative with
  | .number digits, _ =>
    let text := if negative then "-" ++ digits else digits
    match Decimal.parse? text with
    | some value => pure (.number value)
    | none => failAt (.numberRange text) start
  | _, true => unexpected .negativeNumber
  | .string content, false => pure (.text content)
  | .keyword .true, false => pure (.truth true)
  | .keyword .false, false => pure (.truth false)
  | .keyword .null, false => failHere .nullLiteral
  | _, false => unexpected .literal

/-- Reads a literal. -/
def literal : Parser Literal := do
  let start ← currentPosition
  let negative ← eatSymbol .minus
  let value ← literalHere negative start
  advance
  pure value

/-- The comparison operator that a token of this kind is. -/
def comparisonOf? : TokenKind → Option Comparison
  | .symbol .equal => some .eq
  | .symbol .notEqual => some .ne
  | .symbol .less => some .lt
  | .symbol .lessEqual => some .le
  | .symbol .greater => some .gt
  | .symbol .greaterEqual => some .ge
  | _ => none

/-- Whether a literal may begin with a token of this kind. -/
def beginsLiteral : TokenKind → Bool
  | .number _ => true
  | .string _ => true
  | .symbol .minus => true
  | .keyword .true => true
  | .keyword .false => true
  | _ => false

/-- Reads a comparison that begins with a literal. -/
def literalFirst (scope : Scope) : Parser Condition := do
  let value ← literal
  match comparisonOf? (← currentKind) with
  | some op =>
    advance
    let column ← boundColumn scope
    pure (.test column (.compare op.flip value))
  | none => unexpected .operatorAfterLiteral

/-- Reads the right side of a comparison of a column. -/
def comparison (op : Comparison) : Parser Test := do
  advance
  match ← currentKind with
  | .keyword .null => failHere .comparisonWithNull
  | .identifier _ => failHere .comparisonOfColumns
  | _ =>
    let value ← literal
    pure (.compare op value)

/-- Reads `IS NULL` or `IS NOT NULL`. -/
def nullTest : Parser Test := do
  advance
  let negated ← eatKeyword .not
  expectKeyword .null .nullAfterIs
  pure (.null !negated)

/-- Reads the pattern of a `LIKE` test. -/
def likeTest : Parser Test := do
  advance
  match ← currentKind with
  | .string pattern =>
    consume
    pure (.like pattern)
  | _ => unexpected .pattern

/-- Reads the list of an `IN` test. -/
def amongTest : Parser Test := do
  advance
  expectSymbol .openParen .listStart
  if ← atKeyword .select then failHere .subquery
  else
    let values ← commaList literal
    expectSymbol .closeParen .listEnd
    pure (.among values)

/-- Reads the bounds of a `BETWEEN` test. -/
def betweenTest : Parser Test := do
  advance
  let low ← literal
  expectKeyword .and .betweenAnd
  let high ← literal
  pure (.between low high)

/-- Reads a test that may follow `NOT`: `LIKE`, `IN` or `BETWEEN`, whose reserved
word is the current token. Any other token is not `otherwise`. -/
def wordTest (otherwise : Expectation) : Parser Test := do
  match ← currentKind with
  | .keyword .like => likeTest
  | .keyword .in => amongTest
  | .keyword .between => betweenTest
  | _ => unexpected otherwise

/-- Reads the test of a column that has just been read. -/
def columnTest (column : ColumnRef) : Parser Condition := do
  match ← currentKind with
  | .keyword .is =>
    let test ← nullTest
    pure (.test column test)
  | .keyword .not =>
    advance
    let test ← wordTest .negatedTest
    pure (.not (.test column test))
  | kind =>
    match comparisonOf? kind with
    | some op =>
      let test ← comparison op
      pure (.test column test)
    | none =>
      let test ← wordTest (.operatorAfterColumn column)
      pure (.test column test)

/-- Reads a single test, or a condition in parentheses with the given reader. -/
def predicate (scope : Scope) (inner : Parser Condition) : Parser Condition := do
  if ← eatSymbol .openParen then
    if ← atKeyword .select then failHere .subquery
    else
      let condition ← inner
      expectSymbol .closeParen .groupEnd
      pure condition
  else
    let kind ← currentKind
    if beginsLiteral kind then literalFirst scope
    else
      match kind with
      | .identifier _ =>
        let column ← boundColumn scope
        columnTest column
      | _ => unexpected .condition

/-- Reads an operand behind any number of `NOT`, at most `n` of them. -/
def negation (operand : Parser Condition) : Nat → Parser Condition
  | 0 => operand
  | n + 1 => do
    if ← eatKeyword .not then
      let inner ← negation operand n
      pure (.not inner)
    else operand

/-- Reads further operands of a connective onto `left`, at most `n` of them. -/
def operands (op : Connective) (operand : Parser Condition) : Nat → Condition → Parser Condition
  | 0, left => pure left
  | n + 1, left => do
    if ← eatKeyword op.keyword then
      let right ← operand
      operands op operand n (.binary op left right)
    else pure left

/-- Reads one or more operands joined by a connective. -/
def chain (op : Connective) (operand : Parser Condition) : Parser Condition := do
  let first ← operand
  let n ← remaining
  operands op operand n first

/-- Reads operands behind `NOT`. -/
def negations (operand : Parser Condition) : Parser Condition := do
  let n ← remaining
  negation operand n

/-- Reads a condition with fewer than `depth` parentheses inside each other. -/
def conditionWithin (scope : Scope) : Nat → Parser Condition
  | 0 => unexpected .condition
  | depth + 1 =>
    chain .or (chain .and (negations (predicate scope (conditionWithin scope depth))))

/-- Reads a condition. Every parenthesis is a token, so the tokens still to be read
bound the depth. -/
def condition (scope : Scope) : Parser Condition := do
  let n ← remaining
  conditionWithin scope (n + 1)

end FetchQuery.Sql
