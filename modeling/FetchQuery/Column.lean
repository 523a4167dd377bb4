import FetchQuery.Operator

/-!
# Columns and aggregate calls

A column is named by an attribute and, where it is not the root entity's, by the
entity or alias it belongs to. An aggregate call names one column or a star. The
attribute behind a star and the name of an unnamed aggregate follow from the entity.
-/

set_option autoImplicit false

namespace FetchQuery

/-- A reference to an attribute of an entity. In a statement a reference without
qualifier belongs to the root entity. -/
structure ColumnRef where
  qualifier : Option String
  name : String
deriving DecidableEq, Repr

/-- How a message names a column. -/
def ColumnRef.display (c : ColumnRef) : String :=
  match c.qualifier with
  | some q => q ++ "." ++ c.name
  | none => c.name

/-- What an aggregate function is applied to. -/
inductive AggregateArgument where
  | column (column : ColumnRef)
  | star
deriving DecidableEq, Repr

/-- An aggregate function applied to its argument. -/
structure AggregateCall where
  function : AggregateFunction
  argument : AggregateArgument
  distinct : Bool
deriving DecidableEq, Repr

namespace AggregateCall

/-- The attribute an aggregate is computed over; a star stands for the primary key
of the entity, which is the entity's name followed by `id`. -/
def attributeName (call : AggregateCall) (entity : String) : String :=
  match call.argument with
  | .column c => c.name
  | .star => entity ++ "id"

/-- The name of an aggregate column that is not given one. -/
def defaultLabel (call : AggregateCall) (entity : String) : String :=
  call.function.fetch ++ "_" ++ call.attributeName entity

end AggregateCall

end FetchQuery
