import FetchQuery.Statement
import FetchQuery.Xml.Node

/-!
# Sort keys

FetchXML sorts by an attribute of an entity or by the label of a result column.
Aggregate queries sort by label, and other queries by attribute, so a label of the
select list is followed to the column behind it.
-/

set_option autoImplicit false

namespace FetchQuery.Fetch

/-- What a query is sorted by. -/
inductive SortKey where
  | column (owner : Option String) (name : String)
  | label (name : String)
deriving DecidableEq, Repr

namespace SortKey

/-- The sort key of the column that a select item with the label `name` stands for. -/
def ofLabelled (aggregate : Bool) (name : String) (item : SelectItem) : SortKey :=
  match item.value with
  | .column c => if aggregate then .label name else .column c.qualifier c.name
  | _ => .label name

/-- The sort key of a column that is no label. A grouped column of an aggregate query
is addressed by the label of its first selected item, or by its name. -/
def ofColumn (s : Statement) (column : ColumnRef) : SortKey :=
  if s.isAggregate && s.groupBy.contains column then
    .label (((s.allItems.find? fun item => item.selects column).bind SelectItem.label).getD
      column.name)
  else .column column.qualifier column.name

/-- The sort key of a sort column. -/
def ofOrder (s : Statement) (item : OrderItem) : SortKey :=
  match item.column.qualifier, s.labelled? item.column.name with
  | none, some selected => ofLabelled s.isAggregate item.column.name selected
  | _, _ => ofColumn s item.column

/-- The attributes of an order element that name its key. -/
def attributes : SortKey → List (String × String)
  | .column (some owner) name => [("entityname", owner), ("attribute", name)]
  | .column none name => [("attribute", name)]
  | .label name => [("alias", name)]

end SortKey

/-- The order element of a sort column. -/
def orderNode (s : Statement) (item : OrderItem) : Xml.Node :=
  .leaf "order"
    ((SortKey.ofOrder s item).attributes ++
      [("descending", match item.direction with
        | .descending => "true"
        | .ascending => "false")])

end FetchQuery.Fetch
