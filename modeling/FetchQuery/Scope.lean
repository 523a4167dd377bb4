import FetchQuery.Statement

/-!
# Scopes

A scope lists the entities that a column reference may name: the root entity and
the joined entities in the order of their joins. Qualifiers are compared without
regard to letter case, and no two entities of a scope share one.

`bind` resolves a column reference and gives it the spelling that the statement
keeps. `orient` decides which side of a join condition belongs to the entity that
was joined last.
-/

set_option autoImplicit false

namespace FetchQuery

/-- The entity that a reference resolves to. -/
inductive Binding where
  | root
  | join (index : Nat)
deriving DecidableEq, Repr

/-- The entities in scope. A lenient scope lets references without qualifier stand
for the root entity even when there are joins. -/
structure Scope where
  source : Source
  joined : List String
  lenient : Bool
deriving DecidableEq, Repr

/-- Why a name cannot be used in a scope. -/
inductive ScopeFault where
  | ambiguousColumn (name : String)
  | nameTaken (qualifier : String) (owner : Binding)
  | unknownQualifier (qualifier : String)
  | selfComparison (qualifier : String)
  | unrelatedColumns (qualifier : String)
deriving DecidableEq, Repr

/-- The text that reports a scope fault. -/
def ScopeFault.message : ScopeFault → String
  | .ambiguousColumn name =>
    "Ambiguous column reference '" ++ name ++
      "': qualify it with an entity alias when joins are present"
  | .nameTaken qualifier owner =>
    "Ambiguous table name '" ++ qualifier ++ "': already used by " ++
      (match owner with
        | .root => "the FROM entity"
        | .join _ => "an earlier join") ++
      "; give the join a distinct alias"
  | .unknownQualifier qualifier => "Unknown table alias '" ++ qualifier ++ "'"
  | .selfComparison qualifier => "JOIN condition compares '" ++ qualifier ++ "' with itself"
  | .unrelatedColumns qualifier => "JOIN condition must reference '" ++ qualifier ++ "'"

/-- How a joined entity is linked: the parent's qualifier, unless it is the root,
and the attributes on both sides. -/
structure JoinLink where
  parent : Option String
  fromAttribute : String
  toAttribute : String
deriving DecidableEq, Repr

namespace Scope

/-- The scope of a query before its joins. -/
def ofSource (source : Source) (lenient : Bool) : Scope :=
  ⟨source, [], lenient⟩

/-- Whether a scope has joined entities. -/
def hasJoins (scope : Scope) : Bool :=
  !scope.joined.isEmpty

/-- The entity with a qualifier, the root before the joins. -/
def find? (scope : Scope) (qualifier : String) : Option Binding :=
  if Text.sameName scope.source.qualifier qualifier then some .root
  else (scope.joined.findIdx? fun q => Text.sameName q qualifier).map .join

/-- Registers a joined entity under a qualifier that is not in use, and returns the
number of joins that were there before. -/
def addJoin (scope : Scope) (qualifier : String) : Except ScopeFault (Scope × Nat) :=
  match scope.find? qualifier with
  | some owner => .error (.nameTaken qualifier owner)
  | none => .ok ({ scope with joined := scope.joined ++ [qualifier] }, scope.joined.length)

/-- The qualifier that references to an entity carry in a statement: none for the
root, the declared spelling for a join. -/
def declared (scope : Scope) : Binding → Option String
  | .root => none
  | .join i => scope.joined[i]?

/-- The entity that a qualifier names; without qualifier it is the root. -/
def resolve (scope : Scope) : Option String → Except ScopeFault Binding
  | none => .ok .root
  | some q =>
    match scope.find? q with
    | some owner => .ok owner
    | none => .error (.unknownQualifier q)

/-- The reference that a statement keeps for a column, and the entity it belongs
to. Without qualifier a column is ambiguous once there are joins, unless the scope
is lenient. -/
def bind (scope : Scope) (column : ColumnRef) : Except ScopeFault (ColumnRef × Binding) :=
  if column.qualifier.isNone && !scope.lenient && scope.hasJoins then
    .error (.ambiguousColumn column.name)
  else
    match scope.resolve column.qualifier with
    | .ok owner => .ok (⟨scope.declared owner, column.name⟩, owner)
    | .error fault => .error fault

/-- The qualifier of the entity that came into scope last. -/
def newest (scope : Scope) : String :=
  scope.joined.getLast?.getD scope.source.qualifier

/-- Whether a column is written with the qualifier of the entity that came last. -/
def ofNewest (scope : Scope) (column : ColumnRef) : Bool :=
  column.qualifier.any fun q => Text.sameName q scope.newest

/-- The two sides of a join condition as parent side and joined side. Exactly one
side must name the newest entity; two columns without qualifier are taken in the
order in which they are written. -/
def sides (scope : Scope) (left right : ColumnRef) : Except ScopeFault (ColumnRef × ColumnRef) :=
  match scope.ofNewest left, scope.ofNewest right with
  | true, true => .error (.selfComparison scope.newest)
  | true, false => .ok (right, left)
  | false, true => .ok (left, right)
  | false, false =>
    if left.qualifier.isNone && right.qualifier.isNone then .ok (left, right)
    else .error (.unrelatedColumns scope.newest)

/-- The link that a join condition describes for the newest entity. -/
def orient (scope : Scope) (left right : ColumnRef) : Except ScopeFault JoinLink :=
  match scope.sides left right with
  | .error fault => .error fault
  | .ok (parent, child) =>
    if parent.qualifier.isNone && !scope.lenient then .error (.ambiguousColumn parent.name)
    else
      match scope.resolve parent.qualifier with
      | .ok owner => .ok ⟨scope.declared owner, parent.name, child.name⟩
      | .error fault => .error fault

end Scope

end FetchQuery
