import FetchQuery.Condition

/-!
# Select statements

A statement keeps its select list by owner: the root entity holds its own items and
every join holds the items of the joined entity. Its row count is an unsigned number of
64 bits, written with decimal digits.
-/

set_option autoImplicit false

namespace FetchQuery

/-! ## Row counts -/

/-- The number that a run of decimal digits spells. -/
def digitsValue (cs : List Char) : Nat :=
  Nat.ofDigitChars 10 cs 0

/-- The row count that a text spells: decimal digits, with a plus sign allowed in
front of them, of a number below `2 ^ 64`. -/
def rowCount? (s : String) : Option UInt64 :=
  let digits := match s.toList with
    | '+' :: cs => cs
    | cs => cs
  if digits ≠ [] ∧ digits.all Char.isDigit ∧ digitsValue digits < UInt64.size then
    some (UInt64.ofNat (digitsValue digits))
  else none

/-- The decimal digits of a row count. -/
def rowCountText (n : UInt64) : String :=
  String.ofList (Nat.toDigits 10 n.toNat)

/-! ## Statements -/

/-- What an item of the select list produces. A wildcard stands for all attributes
of the entity with the given qualifier, or of the root entity. -/
inductive SelectValue where
  | column (column : ColumnRef)
  | aggregate (call : AggregateCall)
  | wildcard (owner : Option String)
deriving DecidableEq, Repr

/-- An item of the select list and the label it is given with `AS`. -/
structure SelectItem where
  value : SelectValue
  label : Option String
deriving DecidableEq, Repr

/-- Whether an item is an aggregate call. -/
def SelectItem.isAggregate (item : SelectItem) : Bool :=
  match item.value with
  | .aggregate _ => true
  | _ => false

/-- Whether an item selects exactly the given column. -/
def SelectItem.selects (item : SelectItem) (column : ColumnRef) : Bool :=
  match item.value with
  | .column c => c == column
  | _ => false

/-- The root entity of a query and its label, which only SQL can express. -/
structure Source where
  entity : String
  label : Option String
deriving DecidableEq, Repr

/-- The name that other clauses use for the root entity. -/
def Source.qualifier (source : Source) : String :=
  source.label.getD source.entity

/-- A joined entity. The attribute `fromAttribute` belongs to the parent and
`toAttribute` to the joined entity; a join without `parent` hangs off the root. -/
structure Join where
  entity : String
  label : Option String
  kind : JoinKind
  parent : Option String
  fromAttribute : String
  toAttribute : String
  items : List SelectItem
deriving DecidableEq, Repr

/-- The name that other clauses use for a joined entity. -/
def Join.qualifier (join : Join) : String :=
  join.label.getD join.entity

/-- A sort column and its direction. -/
structure OrderItem where
  column : ColumnRef
  direction : Direction
deriving DecidableEq, Repr

/-- A select statement. -/
structure Statement where
  comments : List String
  distinct : Bool
  top : Option UInt64
  items : List SelectItem
  source : Source
  joins : List Join
  condition : Option Condition
  groupBy : List ColumnRef
  orderBy : List OrderItem
deriving DecidableEq

namespace Statement

/-- All items of the select list: those of the root entity, then those of the joins
in order. -/
def allItems (s : Statement) : List SelectItem :=
  s.items ++ s.joins.flatMap Join.items

/-- Whether a query groups its rows or computes an aggregate. -/
def isAggregate (s : Statement) : Bool :=
  !s.groupBy.isEmpty || s.allItems.any SelectItem.isAggregate

/-- The first join with the given qualifier. -/
def join? (s : Statement) (qualifier : String) : Option Join :=
  s.joins.find? fun j => j.qualifier == qualifier

/-- The first item of the select list with the given label. -/
def labelled? (s : Statement) (label : String) : Option SelectItem :=
  s.allItems.find? fun item => item.label == some label

end Statement

end FetchQuery
