import FetchQuery.Proofs.JoinForest
import FetchQuery.Proofs.WellBound

/-!
# Entities and their items

A statement keeps the select items of its root entity and those of its joins in different
places. `Statement.holders` lists the entities in one way, so that what holds of the items of
each entity holds of all items. The order of the joins does not matter for it.
-/

set_option autoImplicit false

namespace FetchQuery

/-- The items that an entity of a statement holds. The root has no qualifier. -/
structure Holder where
  owner : Option String
  entity : String
  items : List SelectItem

theorem ColumnRef.eq_of_qualifier {c : ColumnRef} {q : Option String} (h : c.qualifier = q) :
    (⟨q, c.name⟩ : ColumnRef) = c := by
  subst h
  rfl

theorem SelectItem.selects_iff {item : SelectItem} {c : ColumnRef} :
    item.selects c = true ↔ item.value = .column c := by
  rw [selects]
  cases item.value <;> simp

namespace Statement

/-- The entities of a statement with their items, the root first. -/
def holders (s : Statement) : List Holder :=
  ⟨none, s.source.entity, s.items⟩ :: s.joins.map fun j => ⟨some j.qualifier, j.entity, j.items⟩

theorem allItems_eq (s : Statement) : s.allItems = s.holders.flatMap Holder.items := by
  simp [allItems, holders, List.flatMap_map]

/-- The labels of the result columns, entity by entity. -/
theorem resultLabels_eq (s : Statement) :
    s.resultLabels = s.holders.flatMap fun h =>
      h.items.filterMap (SelectItem.resultLabel? s.isAggregate h.entity) := by
  -- the indices of the joins behind the first `k` are counted from `k` on
  have hjoins : ∀ (joins : List Join) (k : Nat), (∀ i, joins[i]? = s.joins[k + i]?) →
      ((joins.zipIdx k).flatMap fun p => p.1.items.map (·, Binding.join p.2)).filterMap
          (fun p => p.1.resultLabel? s.isAggregate (s.entityOf p.2)) =
        joins.flatMap fun j =>
          j.items.filterMap (SelectItem.resultLabel? s.isAggregate j.entity) := by
    intro joins
    induction joins with
    | nil => exact fun _ _ => rfl
    | cons j joins ih =>
      intro k hk
      have hj : s.joins[k]? = some j := by simpa using (hk 0).symm
      rw [List.zipIdx_cons, List.flatMap_cons, List.filterMap_append, List.flatMap_cons,
        ih (k + 1) (fun i => by simpa [Nat.add_assoc, Nat.add_comm 1] using hk (i + 1))]
      congr 1
      simp [List.filterMap_map, entityOf, hj]
  rw [resultLabels, ownedItems, List.filterMap_append, hjoins s.joins 0 (by simp)]
  simp [holders, List.flatMap_map, List.filterMap_map, entityOf]

/-- A query aggregates if it groups by a column or selects an aggregate. -/
theorem isAggregate_iff (s : Statement) : s.isAggregate = true ↔
    (∃ c, c ∈ s.groupBy) ∨ ∃ item ∈ s.allItems, item.isAggregate = true := by
  rw [isAggregate, Bool.or_eq_true, List.any_eq_true, Bool.not_eq_true',
    List.isEmpty_eq_false_iff_exists_mem]

theorem mem_allItems {s : Statement} {item : SelectItem} :
    item ∈ s.allItems ↔ ∃ h ∈ s.holders, item ∈ h.items := by
  rw [allItems_eq, List.mem_flatMap]

theorem root_mem_holders (s : Statement) : ⟨none, s.source.entity, s.items⟩ ∈ s.holders :=
  List.mem_cons_self

theorem join_mem_holders {s : Statement} {j : Join} (hj : j ∈ s.joins) :
    ⟨some j.qualifier, j.entity, j.items⟩ ∈ s.holders :=
  List.mem_cons_of_mem _ (List.mem_map_of_mem hj)

/-- Only the root has no qualifier. -/
theorem eq_root_of_owner_eq_none {s : Statement} {h : Holder} (hh : h ∈ s.holders)
    (howner : h.owner = none) : h = ⟨none, s.source.entity, s.items⟩ := by
  rcases List.mem_cons.1 hh with rfl | hh
  · rfl
  · obtain ⟨j, hj, rfl⟩ := List.mem_map.1 hh
    cases howner

/-- Every item belongs to the entity that holds it. -/
theorem Resolved.owned {s : Statement} (hs : s.Resolved) {h : Holder}
    (hh : h ∈ s.holders) {item : SelectItem} (hitem : item ∈ h.items) :
    item.value.OwnedBy h.owner := by
  rcases List.mem_cons.1 hh with rfl | hh
  · exact hs.root_items item hitem
  · obtain ⟨j, hj, rfl⟩ := List.mem_map.1 hh
    exact hs.join_items j hj item hitem

theorem Refers.exists_holder {s : Statement} {c : ColumnRef} (hc : s.Refers c) :
    ∃ h ∈ s.holders, h.owner = c.qualifier := by
  rcases hc with hc | ⟨j, hj, hc⟩
  · exact ⟨_, s.root_mem_holders, hc.symm⟩
  · exact ⟨_, join_mem_holders hj, hc.symm⟩

theorem Refers.of_holder {s : Statement} {h : Holder} (hh : h ∈ s.holders) {c : ColumnRef}
    (hc : c.qualifier = h.owner) : s.Refers c := by
  rcases List.mem_cons.1 hh with rfl | hh
  · exact .inl hc
  · obtain ⟨j, hj, rfl⟩ := List.mem_map.1 hh
    exact .inr ⟨j, hj, hc⟩

theorem WellBound.isForest {s : Statement} (hs : s.WellBound) :
    JoinForest.IsForest s.joins where
  qualifiers_nodup := by
    have h := pairwise_sameName_iff.1 hs.qualifiers_distinct
    exact (List.nodup_cons.1 (List.Nodup.of_map _ h)).2
  parent_earlier := hs.parent_earlier

end Statement

end FetchQuery
