import FetchQuery.Condition
import FetchQuery.Xml.Node

/-!
# Filters

FetchXML states conditions as a tree of groups over single conditions and has no
negation. `lower` turns a condition into such a tree: negations are pushed down to the
operators, and operands of one connective share one group.
-/

set_option autoImplicit false

namespace FetchQuery.Fetch

/-- An operator of a single FetchXML condition. -/
inductive FilterOperator where
  | compare (op : Comparison)
  | null | notNull
  | among | notAmong
  | between | notBetween
  | like | notLike
deriving DecidableEq, Repr

namespace FilterOperator

/-- The name of an operator. -/
def name : FilterOperator → String
  | .compare op => op.fetch
  | .null => "null"
  | .notNull => "not-null"
  | .among => "in"
  | .notAmong => "not-in"
  | .between => "between"
  | .notBetween => "not-between"
  | .like => "like"
  | .notLike => "not-like"

/-- The operator that holds exactly when the given one does not. -/
def complement : FilterOperator → FilterOperator
  | .compare op => .compare op.negate
  | .null => .notNull
  | .notNull => .null
  | .among => .notAmong
  | .notAmong => .among
  | .between => .notBetween
  | .notBetween => .between
  | .like => .notLike
  | .notLike => .like

end FilterOperator

/-- The values of a single condition: none, one in an attribute, or a list of
elements. -/
inductive FilterValues where
  | none
  | single (value : String)
  | list (values : List String)
deriving DecidableEq, Repr

/-- A filter: a single condition, or a group of filters under one connective. -/
inductive Filter where
  | condition (column : ColumnRef) (operator : FilterOperator) (values : FilterValues)
  | group (op : Connective) (children : List Filter)

/-- The operator that states a test. -/
def operatorOf : Test → FilterOperator
  | .compare op _ => .compare op
  | .null expected => if expected then .null else .notNull
  | .among _ => .among
  | .between _ _ => .between
  | .like _ => .like

/-- The values that a test compares with. -/
def valuesOf : Test → FilterValues
  | .compare _ value => .single value.fetchText
  | .null _ => .none
  | .among values => .list (values.map Literal.fetchText)
  | .between low high => .list [low.fetchText, high.fetchText]
  | .like pattern => .single pattern

namespace Filter

/-- The operands that a filter contributes to a group with the connective `op`: those
of a group with the same connective, otherwise the filter itself. -/
def operands (op : Connective) : Filter → List Filter
  | .group inner children => if inner = op then children else [.group inner children]
  | .condition column operator values => [.condition column operator values]

/-- The filter of a condition, or of its negation. -/
def lower : Condition → Bool → Filter
  | .test column test, negated =>
    .condition column
      (if negated then (operatorOf test).complement else operatorOf test) (valuesOf test)
  | .binary op left right, negated =>
    let op := if negated then op.dual else op
    .group op (operands op (lower left negated) ++ operands op (lower right negated))
  | .not inner, negated => lower inner (!negated)

/-- The filter element of a whole condition, which is always a group. -/
def ofCondition (e : Condition) : Filter :=
  match lower e false with
  | .group op children => .group op children
  | .condition column operator values => .group .and [.condition column operator values]

/-- The attributes of a condition element, its value apart. -/
def conditionAttributes (column : ColumnRef) (operator : FilterOperator) :
    List (String × String) :=
  (match column.qualifier with
    | some q => [("entityname", q)]
    | none => []) ++
    [("attribute", column.name), ("operator", operator.name)]

mutual

/-- The markup of a filter. -/
def node : Filter → Xml.Node
  | .condition column operator values =>
    let attributes := conditionAttributes column operator
    match values with
    | .none => .leaf "condition" attributes
    | .single value => .leaf "condition" (attributes ++ [("value", value)])
    | .list texts => .branch "condition" attributes (texts.map (Xml.Node.text "value"))
  | .group op children => .branch "filter" [("type", op.fetch)] (nodes children)

/-- The markup of the filters in a group. -/
def nodes : List Filter → List Xml.Node
  | [] => []
  | f :: rest => node f :: nodes rest

end

end Filter

end FetchQuery.Fetch
