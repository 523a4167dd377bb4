import FetchQuery.Fetch.Write
import FetchQuery.Proofs.Holders

/-!
# What a written statement is read as

FetchXML does not keep everything of a statement. The label of the root entity and the order of
joins that are not siblings are lost; grouping columns that are not selected come back as select
items; aggregates come back with a label, grouped columns without one that repeats their name,
and a count of the primary key of the root as a count of all rows; sort columns come back as
attributes of an entity or as labels. `returned` is the statement with these changes. Its
condition is any condition that has the same filter.
-/

set_option autoImplicit false

namespace FetchQuery.Fetch

open JoinForest

/-- The column that a sort key is read as. -/
def SortKey.asColumn : SortKey → ColumnRef
  | .column owner name => ⟨owner, name⟩
  | .label name => ⟨none, name⟩

/-- The sort column that a sort column of a statement is read as. -/
def returnedOrder (s : Statement) (item : OrderItem) : OrderItem :=
  ⟨(SortKey.ofOrder s item).asColumn, item.direction⟩

/-- Columns with a further one, which is kept once. -/
def insertColumn (columns : List ColumnRef) (c : ColumnRef) : List ColumnRef :=
  if columns.contains c then columns else columns ++ [c]

/-- Columns with further ones, of which each is kept once. -/
def insertColumns (columns : List ColumnRef) (more : List ColumnRef) : List ColumnRef :=
  more.foldl insertColumn columns

/-- The call that an aggregate of an entity is read as. -/
def returnedCall (owner : Option String) (entity : String) (call : AggregateCall) :
    AggregateCall :=
  { call with
    argument :=
      if call.function = .count ∧ owner = none ∧ call.attributeName entity = entity ++ "id" then
        .star
      else .column ⟨owner, call.attributeName entity⟩ }

/-- The item that a select item of an entity is read as. -/
def returnedItem (s : Statement) (owner : Option String) (entity : String) (item : SelectItem) :
    SelectItem :=
  match item.value with
  | .wildcard _ => ⟨.wildcard owner, none⟩
  | .column c =>
    ⟨.column c, if s.isAggregate then item.label.filter (· != c.name) else item.label⟩
  | .aggregate call =>
    ⟨.aggregate (returnedCall owner entity call),
      some (item.label.getD (call.defaultLabel entity))⟩

/-- The items that an entity comes back with: its own, and its grouping columns that are not
selected. -/
def returnedItems (s : Statement) (owner : Option String) (entity : String)
    (items : List SelectItem) : List SelectItem :=
  items.map (returnedItem s owner entity) ++
    (unselectedColumns s owner).map fun c => ⟨.column c, none⟩

/-- The join that a join is read as. -/
def returnedJoin (s : Statement) (j : Join) : Join :=
  { j with items := returnedItems s (some j.qualifier) j.entity j.items }

/-- The joins in the order in which their links are nested. -/
def nestedJoins (s : Statement) : List Join :=
  preorder s.joins s.joins.length none

/-- The grouping columns among the items of a query. -/
def groupedColumns (s : Statement) (items : List SelectItem) : List ColumnRef :=
  if s.isAggregate then
    items.filterMap fun item =>
      match item.value with
      | .column c => some c
      | _ => none
  else []

/-- The statement that a written statement is read as, up to its condition. -/
def returned (s : Statement) (condition : Option Condition) : Statement :=
  let items := returnedItems s none s.source.entity s.items
  let joins := (nestedJoins s).map (returnedJoin s)
  { comments := []
    distinct := s.distinct
    top := s.top
    items
    source := ⟨s.source.entity, none⟩
    joins
    condition
    groupBy := insertColumns [] (groupedColumns s (items ++ joins.flatMap Join.items))
    orderBy := s.orderBy.map (returnedOrder s) }

theorem insertColumns_append (columns xs ys : List ColumnRef) :
    insertColumns columns (xs ++ ys) = insertColumns (insertColumns columns xs) ys :=
  List.foldl_append

theorem mem_insertColumns {columns more : List ColumnRef} {c : ColumnRef} :
    c ∈ insertColumns columns more ↔ c ∈ columns ∨ c ∈ more := by
  induction more generalizing columns with
  | nil => simp [insertColumns]
  | cons c' more ih =>
    rw [insertColumns, List.foldl_cons, ← insertColumns, ih, insertColumn, List.mem_cons]
    split
    · next h =>
      rw [List.contains_iff_mem] at h
      constructor
      · rintro (hc | hc)
        · exact Or.inl hc
        · exact Or.inr (Or.inr hc)
      · rintro (hc | rfl | hc)
        · exact Or.inl hc
        · exact Or.inl h
        · exact Or.inr hc
    · rw [List.mem_append, List.mem_singleton, or_assoc]

theorem groupedColumns_append (s : Statement) (xs ys : List SelectItem) :
    groupedColumns s (xs ++ ys) = groupedColumns s xs ++ groupedColumns s ys := by
  rw [groupedColumns]
  split
  · next h => simp only [groupedColumns, h, if_true, List.filterMap_append]
  · next h => simp [groupedColumns, h]

/-- What comes back for an entity. -/
def returnedHolder (s : Statement) (h : Holder) : Holder :=
  { h with items := returnedItems s h.owner h.entity h.items }

theorem mem_unselectedColumns {s : Statement} {owner : Option String} {c : ColumnRef} :
    c ∈ unselectedColumns s owner ↔
      c ∈ s.groupBy ∧ c.qualifier = owner ∧ ∀ item ∈ s.allItems, item.value ≠ .column c := by
  simp [unselectedColumns, ← SelectItem.selects_iff, and_comm]

theorem mem_groupedColumns {s : Statement} {items : List SelectItem} {c : ColumnRef} :
    c ∈ groupedColumns s items ↔
      s.isAggregate = true ∧ ∃ item ∈ items, item.value = .column c := by
  rw [groupedColumns]
  split
  · next h =>
    rw [List.mem_filterMap]
    refine ⟨fun ⟨item, hitem, hc⟩ => ⟨h, item, hitem, ?_⟩, fun ⟨_, item, hitem, hc⟩ => ⟨item, hitem, ?_⟩⟩
    · cases hvalue : item.value <;> simp_all
    · rw [hc]
  · next h => simp [h]

theorem mem_returnedItems {s : Statement} {owner : Option String} {entity : String}
    {items : List SelectItem} {item : SelectItem} :
    item ∈ returnedItems s owner entity items ↔
      (∃ kept ∈ items, returnedItem s owner entity kept = item) ∨
        ∃ c ∈ unselectedColumns s owner, (⟨.column c, none⟩ : SelectItem) = item := by
  rw [returnedItems, List.mem_append, List.mem_map, List.mem_map]

theorem isAggregate_returnedItem (s : Statement) (owner : Option String) (entity : String)
    (item : SelectItem) : (returnedItem s owner entity item).isAggregate = item.isAggregate := by
  obtain ⟨_ | _ | _, label⟩ := item <;> rfl

theorem returnedItem_value_eq_column {s : Statement} {owner : Option String} {entity : String}
    {item : SelectItem} {c : ColumnRef} :
    (returnedItem s owner entity item).value = .column c ↔ item.value = .column c := by
  obtain ⟨_ | _ | _, label⟩ := item <;> simp [returnedItem]

/-- A column of a query without aggregates is written with its label, if it has one. -/
theorem columnNode_of_plain {s : Statement} (h : s.isAggregate = false) (c : ColumnRef)
    (label : Option String) :
    columnNode s c label =
      .leaf "attribute" ([("name", c.name)] ++ (label.map fun l => ("alias", l)).toList) := by
  cases label <;> simp [columnNode, h]

/-- A grouping column is written with its label or its name. -/
theorem columnNode_of_grouped {s : Statement} {c : ColumnRef} (h : c ∈ s.groupBy)
    (label : Option String) :
    columnNode s c label = groupedNode c.name (label.getD c.name) := by
  have haggregate := s.isAggregate_iff.2 (Or.inl ⟨c, h⟩)
  simp [columnNode, haggregate, h]

/-! ## The items of a returned statement -/

section Returned

variable {s : Statement} (hs : s.WellBound) (condition : Option Condition)

include hs

theorem holders_returned_perm :
    (returned s condition).holders.Perm (s.holders.map (returnedHolder s)) := by
  rw [Statement.holders, Statement.holders, List.map_cons]
  refine List.Perm.cons _ ?_
  have hperm := (preorder_perm hs.isForest).map fun j =>
    returnedHolder s ⟨some j.qualifier, j.entity, j.items⟩
  rw [List.map_map]
  exact (List.map_map ..).symm ▸ hperm

theorem mem_allItems_returned {item : SelectItem} :
    item ∈ (returned s condition).allItems ↔
      ∃ h ∈ s.holders, item ∈ returnedItems s h.owner h.entity h.items := by
  rw [Statement.mem_allItems]
  simp only [(holders_returned_perm hs condition).mem_iff, List.mem_map]
  constructor
  · rintro ⟨_, ⟨h, hh, rfl⟩, hitem⟩
    exact ⟨h, hh, hitem⟩
  · rintro ⟨h, hh, hitem⟩
    exact ⟨_, ⟨h, hh, rfl⟩, hitem⟩

/-- Every item comes back. -/
theorem returnedItem_mem {h : Holder} (hh : h ∈ s.holders) {item : SelectItem}
    (hitem : item ∈ h.items) :
    returnedItem s h.owner h.entity item ∈ (returned s condition).allItems :=
  (mem_allItems_returned hs condition).2
    ⟨h, hh, mem_returnedItems.2 (Or.inl ⟨item, hitem, rfl⟩)⟩

/-- What comes back is an item of the statement or a grouping column. -/
theorem kept_or_grouped {item : SelectItem} (hitem : item ∈ (returned s condition).allItems) :
    (∃ h ∈ s.holders, ∃ kept ∈ h.items, returnedItem s h.owner h.entity kept = item) ∨
      ∃ c ∈ s.groupBy, (⟨.column c, none⟩ : SelectItem) = item := by
  obtain ⟨h, hh, hitem⟩ := (mem_allItems_returned hs condition).1 hitem
  rcases mem_returnedItems.1 hitem with ⟨kept, hkept, rfl⟩ | ⟨c, hc, rfl⟩
  · exact Or.inl ⟨h, hh, kept, hkept, rfl⟩
  · exact Or.inr ⟨c, (mem_unselectedColumns.1 hc).1, rfl⟩

/-- The selected columns are those that were selected and all grouping columns. -/
theorem selected_returned {c : ColumnRef} :
    (∃ item ∈ (returned s condition).allItems, item.value = .column c) ↔
      (∃ item ∈ s.allItems, item.value = .column c) ∨ c ∈ s.groupBy := by
  constructor
  · rintro ⟨item, hitem, hvalue⟩
    rcases kept_or_grouped hs condition hitem with ⟨h, hh, kept, hkept, rfl⟩ | ⟨c', hc', rfl⟩
    · exact Or.inl ⟨kept, Statement.mem_allItems.2 ⟨h, hh, hkept⟩,
        returnedItem_value_eq_column.1 hvalue⟩
    · cases hvalue
      exact Or.inr hc'
  · intro hc
    by_cases hselected : ∃ item ∈ s.allItems, item.value = .column c
    · obtain ⟨item, hitem, hvalue⟩ := hselected
      obtain ⟨h, hh, hitem⟩ := Statement.mem_allItems.1 hitem
      exact ⟨_, returnedItem_mem hs condition hh hitem, returnedItem_value_eq_column.2 hvalue⟩
    · have hgroup := hc.resolve_left hselected
      obtain ⟨h, hh, howner⟩ := (hs.groupBy_columns c hgroup).exists_holder
      refine ⟨⟨.column c, none⟩, (mem_allItems_returned hs condition).2 ⟨h, hh, ?_⟩, rfl⟩
      refine mem_returnedItems.2 (Or.inr ⟨c, mem_unselectedColumns.2 ⟨hgroup, howner.symm, ?_⟩, rfl⟩)
      exact fun item hitem hvalue => hselected ⟨item, hitem, hvalue⟩

/-- An aggregate query comes back with aggregates and grouping columns only. -/
theorem grouped_returned (haggregate : s.isAggregate = true) {item : SelectItem}
    (hitem : item ∈ (returned s condition).allItems) :
    (∀ owner, item.value ≠ .wildcard owner) ∧ ∀ c, item.value = .column c → c ∈ s.groupBy := by
  rcases kept_or_grouped hs condition hitem with ⟨h, hh, kept, hkept, rfl⟩ | ⟨c, hc, rfl⟩
  · have hgrouped := hs.grouped haggregate kept (Statement.mem_allItems.2 ⟨h, hh, hkept⟩)
    refine ⟨?_, fun c hc => hgrouped.2 c (returnedItem_value_eq_column.1 hc)⟩
    obtain ⟨c | call | owner, label⟩ := kept
    · simp [returnedItem]
    · simp [returnedItem]
    · exact absurd rfl (hgrouped.1 owner)
  · refine ⟨by simp, ?_⟩
    rintro c' ⟨⟩
    exact hc

/-- The grouping columns come back, perhaps in another order. -/
theorem mem_groupBy_returned {c : ColumnRef} :
    c ∈ (returned s condition).groupBy ↔ c ∈ s.groupBy := by
  have hgroupBy : (returned s condition).groupBy =
      insertColumns [] (groupedColumns s (returned s condition).allItems) := rfl
  rw [hgroupBy, mem_insertColumns, mem_groupedColumns]
  constructor
  · rintro (hnil | ⟨haggregate, item, hitem, hvalue⟩)
    · simp at hnil
    · exact (grouped_returned hs condition haggregate hitem).2 c hvalue
  · intro hc
    exact Or.inr ⟨s.isAggregate_iff.2 (Or.inl ⟨c, hc⟩),
      (selected_returned hs condition).2 (Or.inr hc)⟩

theorem isAggregate_returned : (returned s condition).isAggregate = s.isAggregate := by
  rw [Bool.eq_iff_iff, Statement.isAggregate_iff, Statement.isAggregate_iff]
  simp only [mem_groupBy_returned hs condition]
  refine or_congr_right ⟨?_, ?_⟩
  · rintro ⟨item, hitem, haggregate⟩
    rcases kept_or_grouped hs condition hitem with ⟨h, hh, kept, hkept, rfl⟩ | ⟨c, -, rfl⟩
    · rw [isAggregate_returnedItem] at haggregate
      exact ⟨kept, Statement.mem_allItems.2 ⟨h, hh, hkept⟩, haggregate⟩
    · cases haggregate
  · rintro ⟨item, hitem, haggregate⟩
    obtain ⟨h, hh, hitem⟩ := Statement.mem_allItems.1 hitem
    refine ⟨_, returnedItem_mem hs condition hh hitem, ?_⟩
    rw [isAggregate_returnedItem, haggregate]

/-- Every grouping column is selected when it comes back. -/
theorem filter_unselected_returned :
    ((returned s condition).groupBy.filter fun g =>
      !(returned s condition).allItems.any fun item => item.selects g) = [] := by
  rw [List.filter_eq_nil_iff]
  intro c hc
  rw [mem_groupBy_returned hs] at hc
  obtain ⟨item, hitem, hvalue⟩ := (selected_returned hs condition).2 (Or.inr hc)
  rw [Bool.not_eq_true, Bool.not_eq_false', List.any_eq_true]
  exact ⟨item, hitem, SelectItem.selects_iff.2 hvalue⟩

theorem unselectedNames_returned : (returned s condition).unselectedNames = [] := by
  rw [Statement.unselectedNames, filter_unselected_returned hs, List.map_nil]

theorem unselectedColumns_returned (owner : Option String) :
    unselectedColumns (returned s condition) owner = [] := by
  rw [unselectedColumns, List.filter_filter]
  simp only [Bool.and_comm]
  rw [← List.filter_filter, filter_unselected_returned hs, List.filter_nil]

/-- A join comes back under its qualifier. -/
theorem join?_returned {j : Join} (hj : j ∈ s.joins) :
    (returned s condition).join? j.qualifier = some (returnedJoin s j) := by
  have hnested : (nestedJoins s).find? (fun x => x.qualifier == j.qualifier) = some j := by
    rw [← List.head?_filter, nestedJoins, filter_qualifier_preorder_eq hs.isForest,
      filter_qualifier_eq_singleton hs.isForest.qualifiers_nodup hj]
    rfl
  change ((nestedJoins s).map (returnedJoin s)).find? _ = _
  rw [List.find?_map]
  exact congrArg (Option.map (returnedJoin s)) hnested

omit condition in
/-- A call comes back as it was, except for a count of the primary key of the root, which comes
back as a count of rows. -/
theorem returnedCall_cases {h : Holder} (hh : h ∈ s.holders) {call : AggregateCall}
    {label : Option String} (hitem : ⟨.aggregate call, label⟩ ∈ h.items) :
    returnedCall h.owner h.entity call = call ∨
      h.owner = none ∧ ∃ distinct, call = ⟨.count, .column ⟨none, h.entity ++ "id"⟩, distinct⟩ ∧
        returnedCall h.owner h.entity call = ⟨.count, .star, distinct⟩ := by
  have howned := hs.owned hh hitem
  obtain ⟨function, c | _, distinct⟩ := call
  · have hc : (⟨h.owner, c.name⟩ : ColumnRef) = c := ColumnRef.eq_of_qualifier howned
    by_cases hkey : function = .count ∧ h.owner = none ∧ c.name = h.entity ++ "id"
    · obtain ⟨rfl, howner, hname⟩ := hkey
      refine Or.inr ⟨howner, distinct, ?_, ?_⟩
      · rw [← hc, howner, hname]
      · exact congrArg (AggregateCall.mk _ · _) (if_pos ⟨rfl, howner, hname⟩)
    · exact Or.inl (congrArg (AggregateCall.mk _ · _)
        ((if_neg hkey).trans (congrArg AggregateArgument.column hc)))
  · -- a star is counted on the root, where it stands for the primary key
    have hcount := hs.star_count _ (Statement.mem_allItems.2 ⟨h, hh, hitem⟩) _ rfl rfl
    exact Or.inl (congrArg (AggregateCall.mk _ · _) (if_pos ⟨hcount.1, howned, rfl⟩))

/-- A reference of the statement is one of the returned statement. -/
theorem refers_returned {c : ColumnRef} (hc : s.Refers c) : (returned s condition).Refers c := by
  rcases hc with hc | ⟨j, hj, hc⟩
  · exact Or.inl hc
  · refine Or.inr ⟨returnedJoin s j, List.mem_map_of_mem ?_, hc⟩
    exact (mem_preorder_iff hs.isForest).2 hj

end Returned

/-! ## Sort keys -/

section SortKeys

variable {s : Statement} (hs : s.Resolved)

include hs

/-- A select item of a column refers to an entity of the statement. -/
theorem refers_of_selected {item : SelectItem} (hitem : item ∈ s.allItems) {c : ColumnRef}
    (hc : item.value = .column c) : s.Refers c := by
  rcases List.mem_append.1 hitem with hitem | hitem
  · have howned := hs.root_items item hitem
    rw [hc] at howned
    exact Or.inl howned
  · obtain ⟨j, hj, hitem⟩ := List.mem_flatMap.1 hitem
    have howned := hs.join_items j hj item hitem
    rw [hc] at howned
    exact Or.inr ⟨j, hj, howned⟩

/-- A sort column comes back as a column of the statement. -/
theorem refers_asColumn {item : OrderItem} (hitem : item ∈ s.orderBy) :
    s.Refers (SortKey.ofOrder s item).asColumn := by
  have hcolumn : s.Refers (SortKey.ofColumn s item.column).asColumn := by
    rw [SortKey.ofColumn]
    split
    · exact Or.inl rfl
    · exact hs.orderBy_columns item hitem
  rw [SortKey.ofOrder]
  split
  · next selected _ hselected =>
    rw [SortKey.ofLabelled]
    split
    · next c hc =>
      split
      · exact Or.inl rfl
      · exact refers_of_selected hs (List.mem_of_find?_eq_some hselected) hc
    · exact Or.inl rfl
  · exact hcolumn

end SortKeys

end FetchQuery.Fetch
