import FetchQuery.Sql.Where
import FetchQuery.SelectList
import FetchQuery.Statement

/-!
# Reading statements

The clauses of a statement are read in their fixed order. Columns behind `FROM` are
bound as they are read; the select list, which comes first, is bound when all other
clauses are complete. Comments in front of the statement belong to it; comments
inside it wait for a statement that may follow.
-/

set_option autoImplicit false

namespace FetchQuery.Sql

/-- Reads the number of rows behind `TOP` or `LIMIT`, in parentheses or not. -/
def rowCount (clause : Keyword) : Parser UInt64 := do
  let parenthesized ← eatSymbol .openParen
  match ← currentKind with
  | .number text =>
    match rowCount? text with
    | some n =>
      advance
      if parenthesized then expectSymbol .closeParen (.rowCountEnd clause)
      pure n
    | none => failHere (.rowCountNumber clause text)
  | _ => unexpected (.rowCount clause)

/-- Reads a label, which `AS` may introduce. -/
def optionalLabel : Parser (Option String) := do
  if ← eatKeyword .as then
    let label ← identifier .label
    pure (some label)
  else if ← atIdentifier then
    let label ← identifier .label
    pure (some label)
  else pure none

/-- Reads the argument of an aggregate function. A star may stand only alone in
`COUNT`. -/
def aggregateArgument (function : AggregateFunction) (distinct : Bool) :
    Parser AggregateArgument := do
  if ← isAt (.symbol .star) then
    if function ≠ .count ∨ distinct then failHere (.starArgument function distinct)
    else
      advance
      pure .star
  else
    let column ← columnRef
    pure (.column column)

/-- Reads an aggregate call from its opening parenthesis on. -/
def aggregateCall (function : AggregateFunction) : Parser AggregateCall := do
  advance
  let distinct ← eatKeyword .distinct
  let argument ← aggregateArgument function distinct
  expectSymbol .closeParen (.aggregateEnd function)
  pure ⟨function, argument, distinct⟩

/-- Reads a select value that begins with the name `name` at `position`. -/
def namedValue (name : String) (position : Position) : Parser SelectValue := do
  if ← isAt (.symbol .openParen) then
    match AggregateFunction.ofName? name with
    | some function =>
      let call ← aggregateCall function
      pure (.aggregate call)
    | none => failAt (.unsupportedFunction name) position
  else if ← eatSymbol .dot then
    if ← eatSymbol .star then pure (.wildcard (some name))
    else
      let column ← identifier .columnAfterDot
      pure (.column ⟨some name, column⟩)
  else pure (.column ⟨none, name⟩)

/-- Reads what an item of the select list produces. -/
def selectValue (position : Position) : Parser SelectValue := do
  if ← eatSymbol .star then pure (.wildcard none)
  else
    let name ← identifier .columnName
    namedValue name position

/-- Reads an item of the select list. -/
def selectItem : Parser PendingItem := do
  let position ← currentPosition
  let value ← selectValue position
  let label ← optionalLabel
  match value, label with
  | .wildcard _, some _ => failAt .labelledWildcard position
  | _, _ => pure ⟨⟨value, label⟩, position⟩

/-- Whether a select list may begin with a token of this kind. -/
def beginsSelectList : TokenKind → Bool
  | .identifier _ => true
  | .symbol .star => true
  | _ => false

/-- Reads the select list. -/
def selectList : Parser (List PendingItem) := do
  if beginsSelectList (← currentKind) then commaList selectItem
  else unexpected .selectList

/-- Reads the root entity. -/
def source : Parser Source := do
  if ← isAt (.symbol .openParen) then failHere .subquery
  else
    let entity ← identifier .entityName
    if ← isAt (.symbol .dot) then failHere .schemaQualifiedEntity
    else
      let label ← optionalLabel
      pure ⟨entity, label⟩

/-- Reads the words that introduce a join, if a join comes next. -/
def joinKind : Parser (Option JoinKind) := do
  match ← currentKind with
  | .keyword .join =>
    advance
    pure (some .inner)
  | .keyword .inner =>
    advance
    expectKeyword .join (.joinAfter .inner)
    pure (some .inner)
  | .keyword .left =>
    advance
    let _ ← eatKeyword .outer
    expectKeyword .join (.joinAfter .left)
    pure (some .outer)
  | .keyword .right => failHere (.unsupportedJoin .right)
  | .keyword .full => failHere (.unsupportedJoin .full)
  | .keyword .cross => failHere (.unsupportedJoin .cross)
  | _ => pure none

/-- Reads the equality of two columns behind `ON` as the link of the newest entity
in scope. -/
def joinLink (scope : Scope) : Parser JoinLink := do
  let position ← currentPosition
  let left ← columnRef
  expectSymbol .equal .joinEquality
  let right ← columnRef
  match ← currentKind with
  | .keyword .and => failHere .joinConjunction
  | .keyword .or => failHere .joinConjunction
  | _ => inScope position (scope.orient left right)

/-- Reads a join behind its introducing words, and brings its entity into scope. -/
def join (kind : JoinKind) (scope : Scope) : Parser (Join × Scope) := do
  let position ← currentPosition
  let entity ← identifier .joinedEntity
  let label ← optionalLabel
  let (extended, _) ← inScope position (scope.addJoin (label.getD entity))
  expectKeyword .on .joinCondition
  let link ← joinLink extended
  pure (⟨entity, label, kind, link.parent, link.fromAttribute, link.toAttribute, []⟩, extended)

/-- Reads joins, at most `n` of them. -/
def joinsWithin : Nat → Scope → Parser (List Join × Scope)
  | 0, scope => pure ([], scope)
  | n + 1, scope => do
    match ← joinKind with
    | none => pure ([], scope)
    | some kind =>
      let (first, extended) ← join kind scope
      let (rest, final) ← joinsWithin n extended
      pure (first :: rest, final)

/-- Reads the joins of a statement. -/
def joins (scope : Scope) : Parser (List Join × Scope) := do
  let n ← remaining
  joinsWithin n scope

/-- Reads the condition behind `WHERE`, if there is one. -/
def whereClause (scope : Scope) : Parser (Option Condition) := do
  if ← eatKeyword .where then
    let condition ← condition scope
    pure (some condition)
  else pure none

/-- Reads the columns behind `GROUP BY`, if there are any. -/
def groupByClause (scope : Scope) : Parser (List ColumnRef) := do
  if ← eatKeyword .group then
    expectKeyword .by (.by .group)
    commaList (boundColumn scope)
  else pure []

/-- Reads a sort direction; ascending is the default. -/
def direction : Parser Direction := do
  if ← eatKeyword .desc then pure .descending
  else
    let _ ← eatKeyword .asc
    pure .ascending

/-- Reads a sort column. A name that is a label of the select list stands for that
label and is not bound. -/
def orderItem (scope : Scope) (labels : List String) : Parser OrderItem := do
  let position ← currentPosition
  let written ← columnRef
  let column ←
    if written.qualifier.isNone && labels.contains written.name then pure written
    else
      let (bound, _) ← inScope position (scope.bind written)
      pure bound
  let direction ← direction
  pure ⟨column, direction⟩

/-- Reads the sort columns behind `ORDER BY`, if there are any. -/
def orderByClause (scope : Scope) (labels : List String) : Parser (List OrderItem) := do
  if ← eatKeyword .order then
    expectKeyword .by (.by .order)
    commaList (orderItem scope labels)
  else pure []

/-- Reads the row count behind `TOP`, if there is one. -/
def topClause : Parser (Option UInt64) := do
  if ← eatKeyword .top then
    let n ← rowCount .top
    pure (some n)
  else pure none

/-- Reads the row count behind `LIMIT`, if there is one; it means the same as `TOP`
and excludes it. -/
def limitClause (top : Option UInt64) : Parser (Option UInt64) := do
  if ← atKeyword .limit then
    let position ← currentPosition
    advance
    let n ← rowCount .limit
    if top.isSome then failAt .topAndLimit position else pure (some n)
  else pure top

/-- Fails unless the statement ends here, with a semicolon or without. -/
def statementEnd : Parser Unit := do
  let _ ← eatSymbol .semicolon
  match ← currentKind with
  | .endOfInput => pure ()
  | .keyword .union => failHere .setOperation
  | _ => fun c => .error ⟨.trailing c.current.describe, c.current.position⟩ c

/-- Hands out the comments collected so far. -/
def takeComments : Parser (List String) :=
  fun c => .ok c.comments { c with comments := [] }

/-- Fails at a reserved word of a construct outside the language. -/
def refuse (word : Keyword) (fault : SyntaxFault) : Parser Unit := do
  if ← atKeyword word then failHere fault

/-- The outcome of binding a select list as a reading step. -/
def bindSelectList (scope : Scope) (pending : List PendingItem) (groupBy : List ColumnRef)
    (joins : List Join) : Parser (List SelectItem × List Join) :=
  match SelectList.bind scope pending groupBy joins with
  | .ok owned => pure owned
  | .error e => fun c => .error e c

/-- Reads a statement and the end of the input behind it. -/
def statement (lenient : Bool) : Parser Statement := do
  refuse .with .commonTableExpression
  let comments ← takeComments
  expectKeyword .select .select
  let distinct ← eatKeyword .distinct
  let top ← topClause
  let pending ← selectList
  expectKeyword .from .source
  let source ← source
  let (joins, scope) ← joins (Scope.ofSource source lenient)
  let condition ← whereClause scope
  let groupBy ← groupByClause scope
  refuse .having .having
  let orderBy ← orderByClause scope (pending.filterMap fun p => p.item.label)
  let top ← limitClause top
  statementEnd
  let (items, joins) ← bindSelectList scope pending groupBy joins
  pure ⟨comments, distinct, top, items, source, joins, condition, groupBy, orderBy⟩

/-- The statement that a source text spells, or the first error in it. A lenient
reading lets columns without qualifier belong to the root entity. -/
def parse (source : String) (lenient : Bool) : Except SyntaxError Statement :=
  match Cursor.ofSource source with
  | .error e => .error e
  | .ok cursor =>
    match statement lenient cursor with
    | .ok s _ => .ok s
    | .error e _ => .error e

end FetchQuery.Sql
