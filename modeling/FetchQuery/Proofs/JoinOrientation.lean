import FetchQuery.Proofs.Registration

/-!
# Orientation of join conditions

The condition of a join compares a column of the entity that came last with a column of its parent.
Which is which is seen from the qualifiers alone (`Oriented`), unless there are none, so it does not
matter which column is written first (`orient_comm`).
-/

set_option autoImplicit false

namespace FetchQuery.Scope

/-- Of the two columns, `child` is written with the qualifier of the newest entity, and `parent`,
the other one, is not. -/
structure Oriented (scope : Scope) (left right parent child : ColumnRef) : Prop where
  child_newest : scope.ofNewest child = true
  parent_not_newest : scope.ofNewest parent = false
  columns : parent = left ∧ child = right ∨ parent = right ∧ child = left

section Sides

variable {scope : Scope} {left right parent child : ColumnRef}

theorem not_both_bare (h : left.qualifier ≠ none ∨ right.qualifier ≠ none) :
    (left.qualifier.isNone && right.qualifier.isNone) = false := by
  rw [← Bool.not_eq_true, Bool.and_eq_true, Option.isNone_iff_eq_none, Option.isNone_iff_eq_none]
  rintro ⟨hl, hr⟩
  exact h.elim (fun hne => hne hl) fun hne => hne hr

theorem sides_comm (h : left.qualifier ≠ none ∨ right.qualifier ≠ none) :
    scope.sides left right = scope.sides right left := by
  have hleft := not_both_bare h
  have hright := not_both_bare h.symm
  -- only two bare columns would be taken in the order in which they are written
  cases hl : scope.ofNewest left <;> cases hr : scope.ofNewest right <;>
    simp [sides, hl, hr, hleft, hright]

/-- The sides are told apart exactly if one column names the newest entity and the other does not. -/
theorem sides_eq_ok_iff (h : left.qualifier ≠ none ∨ right.qualifier ≠ none) :
    scope.sides left right = .ok (parent, child) ↔ scope.Oriented left right parent child := by
  have hnone := not_both_bare h
  constructor
  · intro hsides
    obtain ⟨hparent, hcolumns⟩ := ofNewest_of_sides hsides
    refine ⟨?_, hparent, hcolumns⟩
    -- with neither column of the newest entity there would be no sides
    cases hchild : scope.ofNewest child with
    | true => rfl
    | false =>
      rcases hcolumns with ⟨rfl, rfl⟩ | ⟨rfl, rfl⟩
      · simp [sides, hparent, hchild, hnone] at hsides
      · simp [sides, hparent, hchild, hnone] at hsides
  · rintro ⟨hchild, hparent, ⟨rfl, rfl⟩ | ⟨rfl, rfl⟩⟩
    · rw [sides, hparent, hchild]
    · rw [sides, hparent, hchild]

end Sides

variable {scope : Scope}

theorem orient_comm {left right : ColumnRef}
    (h : left.qualifier ≠ none ∨ right.qualifier ≠ none) :
    scope.orient left right = scope.orient right left := by
  rw [orient, orient, sides_comm h]

/-- How a join condition is written does not matter. In every scope, two columns that are not both
without qualifier give the same link, or the same fault, in either order. A link leads to the root or
to a join that came before the newest one, in the spelling in which it was registered. Its attributes
are the names of the columns: the column with the qualifier of the newest entity is the child's, the
other one the parent's, and the parent is what the qualifier of that column names. -/
theorem orient_either_way (scope : Scope) (left right : ColumnRef) :
    (left.qualifier ≠ none ∨ right.qualifier ≠ none →
      scope.orient left right = scope.orient right left ∧
      ∀ link, scope.orient left right = .ok link ↔
        ∃ parent child owner, scope.Oriented left right parent child ∧
          (parent.qualifier = none → scope.lenient = true) ∧
          scope.resolve parent.qualifier = .ok owner ∧
          link = ⟨scope.declared owner, parent.name, child.name⟩) ∧
    ∀ link, scope.orient left right = .ok link → ∀ p, link.parent = some p →
      ∃ i, scope.joined[i]? = some p ∧ i + 1 < scope.joined.length := by
  refine ⟨fun h => ⟨orient_comm h, fun link => ?_⟩, fun link hlink p hp => ?_⟩
  · simp only [orient_eq_ok_iff, sides_eq_ok_iff h]
  · obtain ⟨parent, child, owner, hsides, -, howner, rfl⟩ := orient_eq_ok_iff.1 hlink
    exact exists_index_of_declared (ofNewest_of_sides hsides).1 howner hp

/-- The scope of a query for books with their authors and the pens of those. -/
def penScope : Scope :=
  (ofSource ⟨"book", none⟩ false).registerAll ["author", "AUTHOR", "pen"]

/-- The pens hang off the authors, in the spelling that was registered, whichever column comes
first. -/
theorem orient_either_way_pens :
    penScope.orient ⟨some "Pen", "owner"⟩ ⟨some "Author", "id"⟩ =
        .ok ⟨some "author", "id", "owner"⟩ ∧
      penScope.orient ⟨some "Author", "id"⟩ ⟨some "Pen", "owner"⟩ =
        .ok ⟨some "author", "id", "owner"⟩ := by
  have hlink : penScope.orient ⟨some "Pen", "owner"⟩ ⟨some "Author", "id"⟩ =
      .ok ⟨some "author", "id", "owner"⟩ := by rfl
  have hboth := (orient_either_way penScope ⟨some "Pen", "owner"⟩ ⟨some "Author", "id"⟩).1
    (Or.inl (by decide))
  exact ⟨hlink, hboth.1 ▸ hlink⟩

end FetchQuery.Scope
