import FetchQuery.Statement
import FetchQuery.Fetch.Reading

/-!
# References to known entities

Conditions and sort columns may name any entity. Those that name neither the root nor
a joined entity are left out, each with a warning; the rest of a condition is kept.
-/

set_option autoImplicit false

namespace FetchQuery.Fetch

/-- What is known of the entities of a statement: the name of the root and the
qualifiers of the joins. -/
structure Known where
  root : String
  joined : List String

/-- A column with its qualifier checked: that of a join is kept, the name of the root
is dropped, and any other gives none. -/
def Known.column? (known : Known) (c : ColumnRef) : Option ColumnRef :=
  match c.qualifier with
  | none => some c
  | some q =>
    if known.joined.contains q then some c
    else if Text.sameName q known.root then some ⟨none, c.name⟩
    else none

/-- The warning for a column that refers to an unknown entity. -/
def unknownWarning (referrer : Referrer) (c : ColumnRef) : List Warning :=
  (c.qualifier.map fun q => Warning.unknownEntity referrer c.name q).toList

/-- The part of a condition that refers to known entities only. -/
def retainKnown (known : Known) : Condition → Reading (Option Condition)
  | .test column test =>
    match known.column? column with
    | some c => ⟨some (.test c test), []⟩
    | none => ⟨none, unknownWarning .condition column⟩
  | .not inner =>
    let kept := retainKnown known inner
    ⟨kept.value.map .not, kept.warnings⟩
  | .binary op left right =>
    let left := retainKnown known left
    let right := retainKnown known right
    let value := match left.value, right.value with
      | some l, some r => some (.binary op l r)
      | some l, none => some l
      | none, r => r
    ⟨value, left.warnings ++ right.warnings⟩

/-- The sort columns that refer to known entities. -/
def retainOrders (known : Known) : List OrderItem → Reading (List OrderItem)
  | [] => ⟨[], []⟩
  | item :: rest =>
    let later := retainOrders known rest
    match known.column? item.column with
    | some c => ⟨⟨c, item.direction⟩ :: later.value, later.warnings⟩
    | none => ⟨later.value, unknownWarning .order item.column ++ later.warnings⟩

end FetchQuery.Fetch
