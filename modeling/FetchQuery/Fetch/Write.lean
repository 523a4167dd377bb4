import FetchQuery.Statement
import FetchQuery.Fetch.CommentBody
import FetchQuery.Fetch.Filter
import FetchQuery.Fetch.SortKey

/-!
# Statements as FetchXML

The root entity becomes an `entity` element and every join a `link-entity` element
inside the element of its parent. Select items become attributes of the entity that
owns them; the sort order and the condition are written at the root.
-/

set_option autoImplicit false

namespace FetchQuery.Fetch

/-- The attribute element of a grouped column under a label. -/
def groupedNode (name label : String) : Xml.Node :=
  .leaf "attribute" [("name", name), ("alias", label), ("groupby", "true")]

/-- The element of a selected column. A grouped column is labelled by its name unless
it has a label of its own. -/
def columnNode (s : Statement) (c : ColumnRef) (label : Option String) : Xml.Node :=
  if s.isAggregate && s.groupBy.contains c then groupedNode c.name (label.getD c.name)
  else
    match label with
    | some l => .leaf "attribute" [("name", c.name), ("alias", l)]
    | none => .leaf "attribute" [("name", c.name)]

/-- The element of an aggregate call on the given entity. -/
def aggregateNode (entity : String) (call : AggregateCall) (label : Option String) : Xml.Node :=
  .leaf "attribute"
    ([("name", call.attributeName entity), ("alias", label.getD (call.defaultLabel entity)),
        ("aggregate", call.function.fetch)] ++
      if call.distinct then [("distinct", "true")] else [])

/-- The element of a select item that belongs to the given entity. -/
def itemNode (s : Statement) (entity : String) (item : SelectItem) : Xml.Node :=
  match item.value with
  | .wildcard _ => .leaf "all-attributes" []
  | .column c => columnNode s c item.label
  | .aggregate call => aggregateNode entity call item.label

/-- The grouping columns of an entity that are not selected. They are written as well,
because only written attributes can be grouped. -/
def unselectedColumns (s : Statement) (owner : Option String) : List ColumnRef :=
  (s.groupBy.filter fun g => g.qualifier == owner).filter fun g =>
    !s.allItems.any fun item => item.selects g

/-- The attribute elements of an entity. -/
def attributeNodes (s : Statement) (owner : Option String) (entity : String)
    (items : List SelectItem) : List Xml.Node :=
  items.map (itemNode s entity) ++
    (unselectedColumns s owner).map fun g => groupedNode g.name g.name

/-- The attributes of the link element of a join. The link is named from the side of
the joined entity. -/
def linkAttributes (j : Join) : List (String × String) :=
  [("name", j.entity), ("from", j.toAttribute), ("to", j.fromAttribute),
      ("link-type", j.kind.fetch)] ++
    match j.label with
    | some label => [("alias", label)]
    | none => []

/-- The link elements below the entity with the qualifier `owner`, down to `depth`
levels. -/
def linkNodes (s : Statement) : Nat → Option String → List Xml.Node
  | 0, _ => []
  | depth + 1, owner =>
    (s.joins.filter fun j => j.parent == owner).map fun j =>
      let children :=
        attributeNodes s (some j.qualifier) j.entity j.items ++
          linkNodes s depth (some j.qualifier)
      if children.isEmpty then .leaf "link-entity" (linkAttributes j)
      else .branch "link-entity" (linkAttributes j) children

/-- The filter element of a statement, if it has a condition. -/
def filterNodes (s : Statement) : List Xml.Node :=
  match s.condition with
  | some e => [(Filter.ofCondition e).node]
  | none => []

/-- The entity element. Joins are at most as deep as there are joins. -/
def entityNode (s : Statement) : Xml.Node :=
  .branch "entity" [("name", s.source.entity)]
    (attributeNodes s none s.source.entity s.items ++ s.orderBy.map (orderNode s) ++
      filterNodes s ++ linkNodes s s.joins.length none)

/-- The attributes of the fetch element. -/
def fetchAttributes (s : Statement) : List (String × String) :=
  (match s.top with
    | some n => [("top", rowCountText n)]
    | none => []) ++
    (if s.isAggregate then [("aggregate", "true")] else []) ++
    if s.distinct then [("distinct", "true")] else []

/-- The markup of a statement: its comments and the fetch element. -/
def document (s : Statement) : List Xml.Node :=
  (s.comments.map fun comment => Xml.Node.comment (" " ++ commentBody comment ++ " ")) ++
    [.branch "fetch" (fetchAttributes s) [entityNode s]]

/-- The FetchXML text of a statement, with the given number of blanks for every level. -/
def render (indent : Nat) (s : Statement) : String :=
  Xml.Node.renderDocument indent (document s)

end FetchQuery.Fetch
