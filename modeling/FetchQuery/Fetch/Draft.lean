import FetchQuery.Statement
import FetchQuery.Fetch.ReadFilter

/-!
# Drafts of statements

A draft collects what the elements below an entity contribute, in document order:
joins, grouping columns, sort columns, conditions and warnings. `readBody` walks the
children of an entity and of the links inside it. References to other entities are
taken as they are written; whether these exist is known only at the end.
-/

set_option autoImplicit false

namespace FetchQuery.Fetch

open Xml

/-- What the elements read so far contribute to a statement. -/
structure Draft where
  joins : List Join
  groupBy : List ColumnRef
  orderBy : List OrderItem
  conditions : List Condition
  warnings : List Warning

namespace Draft

/-- A draft with further warnings. -/
def warn (d : Draft) (warnings : List Warning) : Draft :=
  { d with warnings := d.warnings ++ warnings }

/-- A draft with a grouping column, which is kept once. -/
def group (d : Draft) (column : ColumnRef) : Draft :=
  if d.groupBy.contains column then d else { d with groupBy := d.groupBy ++ [column] }

end Draft

/-- The entity whose children are read: its qualifier unless it is the root, its name,
and how it is joined. -/
structure Owner where
  qualifier : Option String
  entity : String
  kind : JoinKind

/-- The argument of an aggregate attribute. Counting the primary key of the root entity
is how counting all rows is written. -/
def readArgument (owner : Owner) (function name : String) : AggregateArgument :=
  if function = "count" ∧ owner.qualifier = none ∧ name = owner.entity ++ "id" then .star
  else .column ⟨owner.qualifier, name⟩

/-- The select item of an aggregate attribute, labelled by default if need be. -/
def readAggregate (owner : Owner) (e : Element) (function name : String) :
    Reading (Option SelectItem) :=
  match AggregateFunction.ofFetch? function with
  | none => ⟨none, [.unsupportedAggregate function name]⟩
  | some f =>
    let call : AggregateCall := ⟨f, readArgument owner function name, e.flag "distinct"⟩
    match e.attr? "alias" with
    | some label => ⟨some ⟨.aggregate call, some label⟩, []⟩
    | none =>
      let label := call.defaultLabel owner.entity
      ⟨some ⟨.aggregate call, some label⟩, [.unlabelledAggregate name label]⟩

/-- The warning for an attribute that is grouped by a part of a date. -/
def dateGroupingWarning (e : Element) (name : String) : List Warning :=
  ((e.attr? "dategrouping").map fun kind => Warning.dateGrouping kind name).toList

/-- Takes in an attribute element: the select item it gives, and the draft with its
grouping column. A grouped column needs no label that is its own name. -/
def readAttribute (owner : Owner) (e : Element) (d : Draft) : Option SelectItem × Draft :=
  match e.attr? "name" with
  | none => (none, d.warn [.unnamedAttribute])
  | some name =>
    let d := d.warn (dateGroupingWarning e name)
    match e.attr? "aggregate" with
    | some function =>
      let item := readAggregate owner e function name
      (item.value, d.warn item.warnings)
    | none =>
      let column : ColumnRef := ⟨owner.qualifier, name⟩
      if e.flag "groupby" then
        (some ⟨.column column, (e.attr? "alias").filter (· != name)⟩, d.group column)
      else (some ⟨.column column, e.attr? "alias"⟩, d)

/-- The sort column of an order element. -/
def readOrder (owner : Option String) (e : Element) : Except Warning OrderItem :=
  let direction := if e.flag "descending" then Direction.descending else .ascending
  match e.attr? "attribute", e.attr? "alias" with
  | some name, _ => .ok ⟨⟨(e.attr? "entityname").or owner, name⟩, direction⟩
  | none, some label => .ok ⟨⟨none, label⟩, direction⟩
  | none, none => .error .orderWithoutKey

/-- Takes in an order element. -/
def addOrder (owner : Owner) (e : Element) (d : Draft) : Draft :=
  match readOrder owner.qualifier e with
  | .ok item => { d with orderBy := d.orderBy ++ [item] }
  | .error warning => d.warn [warning]

/-- The warning for a filter whose entity is joined outer: as part of the condition it
also excludes rows without a partner. -/
def outerFilterWarning (owner : Owner) : List Warning :=
  match owner.qualifier, owner.kind with
  | some q, .outer => [.filterInOuterJoin q]
  | _, _ => []

/-- Takes in a filter element. -/
def addFilter (owner : Owner) (e : Element) (d : Draft) : Draft :=
  let filter := readFilter owner.qualifier e
  let d := d.warn (outerFilterWarning owner ++ filter.warnings)
  { d with conditions := d.conditions ++ filter.value.toList }

/-- The kind of join that a link type stands for; an unknown one counts as inner. -/
def linkKind (e : Element) (entity : String) : Reading JoinKind :=
  match e.attr? "link-type" with
  | none => ⟨.inner, []⟩
  | some "inner" => ⟨.inner, []⟩
  | some "outer" => ⟨.outer, []⟩
  | some other => ⟨.inner, [.unknownLinkType other entity]⟩

/-- The value of an attribute that a link element must have. -/
def required (e : Element) (name : String) : Except ReadError String :=
  match e.attr? name with
  | some value => .ok value
  | none => .error (.noAttribute "link-entity" name)

/-- The join of a link element below the entity `parent`, without select items. -/
def readLink (parent : Option String) (e : Element) : Except ReadError (Reading Join) := do
  let entity ← required e "name"
  let toAttribute ← required e "from"
  let fromAttribute ← required e "to"
  let kind := linkKind e entity
  pure ⟨⟨entity, e.attr? "alias", kind.value, parent, fromAttribute, toAttribute, []⟩,
    kind.warnings⟩

/-- The warning for a qualifier that is in use already. -/
def qualifierWarning (root qualifier : String) (joins : List Join) : List Warning :=
  if qualifier = root ∨ joins.any (fun j => j.qualifier == qualifier) then
    [.repeatedQualifier qualifier]
  else []

/-- A draft with a new join. -/
def Draft.addJoin (d : Draft) (root : String) (join : Reading Join) : Draft :=
  let d := d.warn (join.warnings ++ qualifierWarning root join.value.qualifier d.joins)
  { d with joins := d.joins ++ [join.value] }

/-- The entity that a join brings in. -/
def ownerOf (j : Join) : Owner :=
  ⟨some j.qualifier, j.entity, j.kind⟩

mutual

/-- Takes in the child elements of an entity: the select items they give, and the
draft with everything else. The root entity has the name `root`. -/
def readBody (root : String) (owner : Owner) :
    List Element → Draft → Except ReadError (List SelectItem × Draft)
  | [], d => .ok ([], d)
  | child :: rest, d =>
    if child.name = "attribute" then
      let read := readAttribute owner child d
      (readBody root owner rest read.2).map fun (items, d) => (read.1.toList ++ items, d)
    else if child.name = "all-attributes" then
      (readBody root owner rest d).map fun (items, d) =>
        (⟨.wildcard owner.qualifier, none⟩ :: items, d)
    else if child.name = "order" then readBody root owner rest (addOrder owner child d)
    else if child.name = "filter" then readBody root owner rest (addFilter owner child d)
    else if child.name = "link-entity" then
      (readJoin root owner child d).bind (readBody root owner rest)
    else readBody root owner rest (d.warn [.unknownElement child.name])

/-- Takes in a link element with its children. The joins of nested links follow the
join of the link itself. -/
def readJoin (root : String) (owner : Owner) : Element → Draft → Except ReadError Draft
  | e@⟨_, _, children, _⟩, d =>
    (readLink owner.qualifier e).bind fun join =>
      (readBody root (ownerOf join.value) children (d.addJoin root join)).map fun (items, read) =>
        { read with joins := read.joins.set d.joins.length { join.value with items } }

end

end FetchQuery.Fetch
