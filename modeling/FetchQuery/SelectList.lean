import FetchQuery.SyntaxError

/-!
# Binding the select list

The items of a select list are read before the entities they belong to. Once the
scope is complete, `SelectList.bind` resolves the items, checks the grouping rule
and the labels of the result columns, and hands every item to its owner. Nothing is
handed out unless all checks succeed.
-/

set_option autoImplicit false

namespace FetchQuery

/-- A select item as written, with the position of its first token. -/
structure PendingItem where
  item : SelectItem
  position : Position
deriving DecidableEq, Repr

/-- A select item resolved to its owner. -/
structure BoundItem where
  item : SelectItem
  owner : Binding
  position : Position
deriving DecidableEq, Repr

namespace SelectList

/-- Resolves what an item produces. A bare wildcard and a star argument belong to
the root entity. -/
def bindValue (scope : Scope) : SelectValue → Except ScopeFault (SelectValue × Binding)
  | .column c =>
    match scope.bind c with
    | .ok (bound, owner) => .ok (.column bound, owner)
    | .error fault => .error fault
  | .wildcard none => .ok (.wildcard none, .root)
  | .wildcard (some q) =>
    match scope.resolve (some q) with
    | .ok owner => .ok (.wildcard (scope.declared owner), owner)
    | .error fault => .error fault
  | .aggregate call =>
    match call.argument with
    | .star => .ok (.aggregate call, .root)
    | .column c =>
      match scope.bind c with
      | .ok (bound, owner) => .ok (.aggregate { call with argument := .column bound }, owner)
      | .error fault => .error fault

/-- Resolves the items in order, up to the first that does not bind. -/
def bindItems (scope : Scope) : List PendingItem → Except SyntaxError (List BoundItem)
  | [] => .ok []
  | pending :: rest =>
    match bindValue scope pending.item.value with
    | .error fault => .error ⟨.scope fault, pending.position⟩
    | .ok (value, owner) =>
      match bindItems scope rest with
      | .error e => .error e
      | .ok bound => .ok (⟨⟨value, pending.item.label⟩, owner, pending.position⟩ :: bound)

/-- Whether a query with these items and grouping columns aggregates its rows. -/
def aggregates (bound : List BoundItem) (groupBy : List ColumnRef) : Bool :=
  !groupBy.isEmpty || bound.any fun b => b.item.isAggregate

/-- What an item breaks of the rule that an aggregate query selects only grouped
columns and aggregates. -/
def groupingFault? (groupBy : List ColumnRef) (b : BoundItem) : Option SyntaxError :=
  match b.item.value with
  | .aggregate _ => none
  | .wildcard _ => some ⟨.wildcardInAggregate, b.position⟩
  | .column c => if groupBy.contains c then none else some ⟨.ungroupedColumn c, b.position⟩

/-- The first item that breaks the grouping rule. -/
def firstGroupingFault? (bound : List BoundItem) (groupBy : List ColumnRef) :
    Option SyntaxError :=
  if aggregates bound groupBy then bound.findSome? (groupingFault? groupBy) else none

/-- The name of the entity that an item belongs to. -/
def entityOf (scope : Scope) (joins : List Join) : Binding → String
  | .root => scope.source.entity
  | .join i => (joins[i]?.map Join.entity).getD ""

/-- The label under which a result column can be addressed: its own label, the
default one of an aggregate, or in an aggregate query the name of the column. -/
def resultLabel? (entity : Binding → String) (aggregate : Bool) (b : BoundItem) :
    Option String :=
  match b.item.label, b.item.value with
  | some label, _ => some label
  | none, .aggregate call => some (call.defaultLabel (entity b.owner))
  | none, .column c => if aggregate then some c.name else none
  | none, .wildcard _ => none

/-- The names of the grouping columns that are not selected; their result columns
are labelled by them. -/
def unselectedNames (bound : List BoundItem) (groupBy : List ColumnRef) : List String :=
  (groupBy.filter fun g => !bound.any fun b => b.item.selects g).map ColumnRef.name

/-- The first item whose label repeats one of `seen` or of an earlier item, letter
case aside. The names in `seen` are in lower case. -/
def firstRepeatedLabel? (label? : BoundItem → Option String) (seen : List String) :
    List BoundItem → Option SyntaxError
  | [] => none
  | b :: rest =>
    match label? b with
    | none => firstRepeatedLabel? label? seen rest
    | some label =>
      if seen.contains (Text.lower label) then some ⟨.repeatedLabel label, b.position⟩
      else firstRepeatedLabel? label? (Text.lower label :: seen) rest

/-- The items that belong to one owner, in source order. -/
def itemsOf (owner : Binding) (bound : List BoundItem) : List SelectItem :=
  (bound.filter fun b => b.owner == owner).map BoundItem.item

/-- Hands the items to the root entity and to the joins. -/
def distribute (bound : List BoundItem) (joins : List Join) : List SelectItem × List Join :=
  (itemsOf .root bound,
    joins.mapIdx fun i j => { j with items := j.items ++ itemsOf (.join i) bound })

/-- Binds a select list: the items of the root entity and the joins with their
items, or the first error. Binding comes before grouping, and grouping before
labels. -/
def bind (scope : Scope) (pending : List PendingItem) (groupBy : List ColumnRef)
    (joins : List Join) : Except SyntaxError (List SelectItem × List Join) :=
  match bindItems scope pending with
  | .error e => .error e
  | .ok bound =>
    match firstGroupingFault? bound groupBy with
    | some e => .error e
    | none =>
      let label? := resultLabel? (entityOf scope joins) (aggregates bound groupBy)
      match firstRepeatedLabel? label? ((unselectedNames bound groupBy).map Text.lower) bound with
      | some e => .error e
      | none => .ok (distribute bound joins)

end SelectList

end FetchQuery
