import FetchQuery.SelectList

/-!
# Well-bound statements

A statement is resolved (`Statement.Resolved`) when every name in it refers to an entity of the
statement in its declared spelling, the joins form a forest under the root, and every select
item is held by the entity it belongs to. It is well bound (`Statement.WellBound`) when moreover
no two entities share a qualifier and an aggregate query selects nothing but aggregates and
grouped columns.

`Statement.Writable` adds what a text of the statement depends on: no name is empty, wildcards
have no label, and the labels of the result columns are distinct. Without the rules that a
reader checks by itself it is `Statement.Legible`.
-/

set_option autoImplicit false

namespace FetchQuery

/-- Whether a select value belongs to the entity with the given qualifier, the root having none.
A star belongs to the root. -/
def SelectValue.OwnedBy (owner : Option String) : SelectValue → Prop
  | .column c => c.qualifier = owner
  | .wildcard q => q = owner
  | .aggregate call =>
    match call.argument with
    | .column c => c.qualifier = owner
    | .star => owner = none

/-- The label of the result column of an item, given the entity it belongs to. -/
def SelectItem.resultLabel? (aggregate : Bool) (entity : String) (item : SelectItem) :
    Option String :=
  match item.label, item.value with
  | some label, _ => some label
  | none, .aggregate call => some (call.defaultLabel entity)
  | none, .column c => if aggregate then some c.name else none
  | none, .wildcard _ => none

/-- The names that a select value is written with, qualifiers aside. -/
def SelectValue.names : SelectValue → List String
  | .column c => [c.name]
  | .wildcard _ => []
  | .aggregate call =>
    match call.argument with
    | .column c => [c.name]
    | .star => []

/-- The names that an item is written with, qualifiers aside. -/
def SelectItem.names (item : SelectItem) : List String :=
  item.value.names ++ item.label.toList

/-- The names that a join is written with, qualifiers aside. -/
def Join.names (j : Join) : List String :=
  j.entity :: j.fromAttribute :: j.toAttribute :: j.label.toList

namespace Statement

/-- The qualifiers of the entities, the root's first. -/
def qualifiers (s : Statement) : List String :=
  s.source.qualifier :: s.joins.map Join.qualifier

/-- Whether a column belongs to the root or carries exactly the qualifier of a join. -/
def Refers (s : Statement) (c : ColumnRef) : Prop :=
  c.qualifier = none ∨ ∃ j ∈ s.joins, c.qualifier = some j.qualifier

/-- A statement whose names refer to its own entities in their declared spelling. -/
structure Resolved (s : Statement) : Prop where
  /-- A join hangs off the root or off a join before it. -/
  parent_earlier : ∀ (i : Nat) (j : Join) (p : String), s.joins[i]? = some j →
    j.parent = some p → ∃ (k : Nat) (j' : Join), k < i ∧ s.joins[k]? = some j' ∧ j'.qualifier = p
  /-- The root holds its own items. -/
  root_items : ∀ item ∈ s.items, item.value.OwnedBy none
  /-- Every join holds its own items. -/
  join_items : ∀ j ∈ s.joins, ∀ item ∈ j.items, item.value.OwnedBy (some j.qualifier)
  condition_columns : ∀ e, s.condition = some e → ∀ c ∈ e.columns, s.Refers c
  groupBy_columns : ∀ c ∈ s.groupBy, s.Refers c
  orderBy_columns : ∀ item ∈ s.orderBy, s.Refers item.column
  items_ne_nil : s.allItems ≠ []
  among_ne_nil : ∀ e, s.condition = some e → ∀ t ∈ e.tests, t.2 ≠ .among []

/-- A resolved statement that keeps the rules for qualifiers, stars and aggregate queries. -/
structure WellBound (s : Statement) : Prop extends Resolved s where
  /-- No two entities have the same qualifier, letter case aside. -/
  qualifiers_distinct : s.qualifiers.Pairwise fun q q' => Text.sameName q q' = false
  /-- A star stands only in a plain `COUNT`. -/
  star_count : ∀ item ∈ s.allItems, ∀ call, item.value = .aggregate call →
    call.argument = .star → call.function = .count ∧ call.distinct = false
  /-- A star stands only on the root. -/
  star_root : ∀ j ∈ s.joins, ∀ item ∈ j.items, ∀ call, item.value = .aggregate call →
    call.argument ≠ .star
  grouped : s.isAggregate = true → ∀ item ∈ s.allItems,
    (∀ owner, item.value ≠ .wildcard owner) ∧ ∀ c, item.value = .column c → c ∈ s.groupBy

theorem pairwise_sameName_iff {names : List String} :
    (names.Pairwise fun a b => Text.sameName a b = false) ↔ (names.map Text.lower).Nodup := by
  rw [List.Nodup, List.pairwise_map]
  simp [Text.sameName]

/-- The select items with the entity that holds them, the root's first. -/
def ownedItems (s : Statement) : List (SelectItem × Binding) :=
  s.items.map (·, .root) ++
    s.joins.zipIdx.flatMap fun p => p.1.items.map (·, .join p.2)

/-- The name of an entity of the statement. -/
def entityOf (s : Statement) : Binding → String
  | .root => s.source.entity
  | .join i => (s.joins[i]?.map Join.entity).getD ""

/-- The labels of the result columns that select items produce. -/
def resultLabels (s : Statement) : List String :=
  s.ownedItems.filterMap fun p => p.1.resultLabel? s.isAggregate (s.entityOf p.2)

/-- The names of grouping columns that no item selects. -/
def unselectedNames (s : Statement) : List String :=
  (s.groupBy.filter fun g => !s.allItems.any fun item => item.selects g).map ColumnRef.name

/-- No name in the statement is empty. -/
structure Named (s : Statement) : Prop where
  source : "" ∉ s.source.entity :: s.source.label.toList
  joins : ∀ j ∈ s.joins, "" ∉ j.names
  items : ∀ item ∈ s.allItems, "" ∉ item.names
  condition : ∀ e, s.condition = some e → ∀ c ∈ e.columns, c.name ≠ ""
  groupBy : ∀ c ∈ s.groupBy, c.name ≠ ""
  orderBy : ∀ item ∈ s.orderBy, item.column.name ≠ ""

/-- A resolved statement whose text, if it is read at all, is read as that statement. -/
structure Legible (s : Statement) : Prop extends Resolved s where
  named : s.Named
  wildcard_unlabelled : ∀ item ∈ s.allItems, ∀ owner, item.value = .wildcard owner →
    item.label = none

/-- A well-bound statement that has a text. -/
structure Writable (s : Statement) : Prop extends WellBound s, Legible s where
  labels_distinct : (s.resultLabels.map Text.lower).Nodup
  labels_unselected : ∀ label ∈ s.resultLabels,
    Text.lower label ∉ s.unselectedNames.map Text.lower

end Statement

end FetchQuery
