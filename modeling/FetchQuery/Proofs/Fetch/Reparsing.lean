import FetchQuery.Proofs.Fetch.FilterReading
import FetchQuery.Proofs.Fetch.Returned
import FetchQuery.Proofs.SelectList

/-!
# When a returned statement has a text

What comes back for a writable statement is always legible (`legible_returned`): its SQL text is
read as this statement or not at all. It is read exactly if the statement reparses
(`Statement.Reparses`, `writable_returned_iff`). There are three ways to fail, one for each
thing that FetchXML does not keep: the label of the root, the labels of grouping columns that
are not selected, and the difference between a count of the primary key and a count of rows.
-/

set_option autoImplicit false

namespace FetchQuery

open JoinForest

/-- A statement whose FetchXML is read as a statement that has an SQL text. -/
structure Statement.Reparses (s : Statement) : Prop where
  /-- No join has the name of the root entity, which is the qualifier of the root once its label
  is lost. -/
  root_name : ∀ j ∈ s.joins, Text.sameName s.source.entity j.qualifier = false
  /-- Grouping columns that are not selected have different names, which become their labels. -/
  unselected_names : (s.unselectedNames.map Text.lower).Nodup
  /-- The distinct values of the primary key of the root are not counted, since this comes back as a
  distinct count of all rows. -/
  primary_key : ∀ item ∈ s.items, item.value ≠
    .aggregate ⟨.count, .column ⟨none, s.source.entity ++ "id"⟩, true⟩

instance (s : Statement) : Decidable s.Reparses :=
  decidable_of_iff ((∀ j ∈ s.joins, Text.sameName s.source.entity j.qualifier = false) ∧
    (s.unselectedNames.map Text.lower).Nodup ∧ ∀ item ∈ s.items, item.value ≠
      .aggregate ⟨.count, .column ⟨none, s.source.entity ++ "id"⟩, true⟩)
    ⟨fun ⟨hroot, hunselected, hkey⟩ => ⟨hroot, hunselected, hkey⟩,
      fun h => ⟨h.root_name, h.unselected_names, h.primary_key⟩⟩

namespace Fetch

variable {s : Statement}

theorem owned_returnedItems {owner : Option String} {entity : String} {items : List SelectItem}
    (h : ∀ item ∈ items, item.value.OwnedBy owner) :
    ∀ item ∈ returnedItems s owner entity items, item.value.OwnedBy owner := by
  intro item hitem
  rcases mem_returnedItems.1 hitem with ⟨kept, hkept, rfl⟩ | ⟨c, hc, rfl⟩
  · have howned := h kept hkept
    obtain ⟨c | call | q, label⟩ := kept
    · exact howned
    · change SelectValue.OwnedBy owner (.aggregate (returnedCall owner entity call))
      simp only [SelectValue.OwnedBy, returnedCall]
      split_ifs with hstar
      · exact hstar.2.1
      · rfl
    · rfl
  · exact (mem_unselectedColumns.1 hc).2.1

theorem attributeName_ne_empty {call : AggregateCall} {entity : String}
    (h : "" ∉ (SelectValue.aggregate call).names) : call.attributeName entity ≠ "" := by
  rw [AggregateCall.attributeName]
  rw [SelectValue.names] at h
  cases hargument : call.argument with
  | column c =>
    intro hname
    simp [hargument, hname] at h
  | star => simp

theorem named_returnedItem {owner : Option String} {entity : String} {item : SelectItem}
    (h : "" ∉ item.names) : "" ∉ (returnedItem s owner entity item).names := by
  obtain ⟨c | call | q, label⟩ := item
  · intro hmem
    refine h ?_
    rcases List.mem_append.1 hmem with hmem | hmem
    · exact List.mem_append_left _ hmem
    · refine List.mem_append_right _ ?_
      rw [returnedItem, Option.mem_toList] at hmem
      rw [Option.mem_toList]
      dsimp only at hmem
      split at hmem
      · exact (Option.filter_eq_some_iff.1 hmem).1
      · exact hmem
  · obtain ⟨hnames, hlabel⟩ := not_or.1 (mt List.mem_append.2 h)
    have hattribute : call.attributeName entity ≠ "" := attributeName_ne_empty hnames
    have hdefault : call.defaultLabel entity ≠ "" := by
      simp [AggregateCall.defaultLabel]
    intro hmem
    rcases List.mem_append.1 hmem with hmem | hmem
    · change "" ∈ (SelectValue.aggregate (returnedCall owner entity call)).names at hmem
      simp only [SelectValue.names, returnedCall] at hmem
      split_ifs at hmem
      · simp at hmem
      · exact hattribute (List.mem_singleton.1 hmem).symm
    · rw [returnedItem, Option.toList_some, List.mem_singleton] at hmem
      cases label with
      | none => exact hdefault hmem.symm
      | some l => exact hlabel (by simpa using hmem)
  · simp [returnedItem, SelectItem.names, SelectValue.names]

/-- A sort column comes back with a name. -/
theorem asColumn_name_ne_empty (hs : s.Legible) {item : OrderItem} (hitem : item ∈ s.orderBy) :
    (SortKey.ofOrder s item).asColumn.name ≠ "" := by
  have hname := hs.named.orderBy item hitem
  have hlabel : ∀ selected ∈ s.allItems, ∀ label, selected.label = some label → label ≠ "" := by
    rintro selected hselected label hlabel rfl
    refine hs.named.items selected hselected (List.mem_append_right _ ?_)
    rw [Option.mem_toList, hlabel]
  have hcolumn : (SortKey.ofColumn s item.column).asColumn.name ≠ "" := by
    rw [SortKey.ofColumn]
    split
    · change Option.getD _ _ ≠ _
      cases hfound : (s.allItems.find? fun selected => selected.selects item.column).bind
          SelectItem.label with
      | none => exact hname
      | some label =>
        obtain ⟨selected, hselected, hsome⟩ := Option.bind_eq_some_iff.1 hfound
        exact hlabel selected (List.mem_of_find?_eq_some hselected) label hsome
    · exact hname
  rw [SortKey.ofOrder]
  split
  · next selected _ hselected =>
    rw [SortKey.ofLabelled]
    split
    · next c hc =>
      split
      · exact hname
      · intro hempty
        refine hs.named.items selected (List.mem_of_find?_eq_some hselected)
          (List.mem_append_left _ ?_)
        rw [hc]
        exact List.mem_singleton.2 hempty.symm
    · exact hname
  · exact hcolumn

section Legible

variable {condition : Option Condition} (hs : s.Writable)
variable (hlower : condition.map (Filter.lower · false) = s.condition.map (Filter.lower · false))

include hs

theorem parent_earlier_returned (i : Nat) (j : Join) (p : String)
    (hj : (returned s condition).joins[i]? = some j) (hp : j.parent = some p) :
    ∃ (k : Nat) (j' : Join), k < i ∧ (returned s condition).joins[k]? = some j' ∧
      j'.qualifier = p := by
  change ((nestedJoins s).map (returnedJoin s))[i]? = some j at hj
  rw [List.getElem?_map] at hj
  obtain ⟨nested, hnested, rfl⟩ := Option.map_eq_some_iff.1 hj
  obtain ⟨k, j', hk, hj', hq⟩ :=
    (isForest_preorder hs.isForest).parent_earlier i nested p hnested hp
  refine ⟨k, returnedJoin s j', hk, ?_, hq⟩
  change ((nestedJoins s).map (returnedJoin s))[k]? = _
  rw [List.getElem?_map, nestedJoins, hj']
  rfl

theorem exists_of_mem_joins_returned {j : Join} (hj : j ∈ (returned s condition).joins) :
    ∃ kept ∈ s.joins, returnedJoin s kept = j := by
  obtain ⟨kept, hkept, rfl⟩ := List.mem_map.1 hj
  exact ⟨kept, (mem_preorder_iff hs.isForest).1 hkept, rfl⟩

include hlower

theorem resolved_returned : (returned s condition).Resolved where
  parent_earlier := parent_earlier_returned hs
  root_items := owned_returnedItems hs.root_items
  join_items := by
    intro j hj
    obtain ⟨kept, hkept, rfl⟩ := exists_of_mem_joins_returned hs hj
    exact owned_returnedItems (hs.join_items kept hkept)
  condition_columns := by
    rintro e' rfl c hc
    obtain ⟨e, he, hsame⟩ := Option.map_eq_some_iff.1 hlower.symm
    rw [Filter.columns_of_lower_eq hsame.symm] at hc
    exact refers_returned hs.toWellBound _ (hs.condition_columns e he c hc)
  groupBy_columns := by
    intro c hc
    rw [mem_groupBy_returned hs.toWellBound] at hc
    exact refers_returned hs.toWellBound _ (hs.groupBy_columns c hc)
  orderBy_columns := by
    intro item hitem
    obtain ⟨written, hwritten, rfl⟩ := List.mem_map.1 hitem
    exact refers_returned hs.toWellBound _ (refers_asColumn hs.toResolved hwritten)
  items_ne_nil := by
    obtain ⟨item, hitem⟩ := List.exists_mem_of_ne_nil _ hs.items_ne_nil
    obtain ⟨h, hh, hitem⟩ := Statement.mem_allItems.1 hitem
    exact List.ne_nil_of_mem (returnedItem_mem hs.toWellBound condition hh hitem)
  among_ne_nil := by
    rintro e' rfl
    obtain ⟨e, he, hsame⟩ := Option.map_eq_some_iff.1 hlower.symm
    exact Filter.among_of_lower_eq hsame.symm (hs.among_ne_nil e he)

theorem named_returned : (returned s condition).Named where
  source := by
    intro hmem
    refine hs.named.source (List.mem_cons.2 (Or.inl ?_))
    simpa [returned] using hmem
  joins := by
    intro j hj
    obtain ⟨kept, hkept, rfl⟩ := exists_of_mem_joins_returned hs hj
    exact hs.named.joins kept hkept
  items := by
    intro item hitem
    rcases kept_or_grouped hs.toWellBound condition hitem with
      ⟨h, hh, kept, hkept, rfl⟩ | ⟨c, hc, rfl⟩
    · exact named_returnedItem (hs.named.items kept (Statement.mem_allItems.2 ⟨h, hh, hkept⟩))
    · have hname := hs.named.groupBy c hc
      simpa [SelectItem.names, SelectValue.names] using Ne.symm hname
  condition := by
    rintro e' rfl c hc
    obtain ⟨e, he, hsame⟩ := Option.map_eq_some_iff.1 hlower.symm
    rw [Filter.columns_of_lower_eq hsame.symm] at hc
    exact hs.named.condition e he c hc
  groupBy := by
    intro c hc
    rw [mem_groupBy_returned hs.toWellBound] at hc
    exact hs.named.groupBy c hc
  orderBy := by
    intro item hitem
    obtain ⟨written, hwritten, rfl⟩ := List.mem_map.1 hitem
    exact asColumn_name_ne_empty hs.toLegible hwritten

/-- What comes back is legible, whatever the statement. -/
theorem legible_returned : (returned s condition).Legible where
  toResolved := resolved_returned hs hlower
  named := named_returned hs hlower
  wildcard_unlabelled := by
    intro item hitem owner hvalue
    rcases kept_or_grouped hs.toWellBound condition hitem with
      ⟨h, hh, kept, hkept, rfl⟩ | ⟨c, hc, rfl⟩
    · obtain ⟨c | call | q, label⟩ := kept
      · cases hvalue
      · cases hvalue
      · rfl
    · cases hvalue

end Legible

section Labels

variable (hs : s.Writable) (condition : Option Condition)

include hs

/-- An item comes back with the label that its result column had. -/
theorem resultLabel?_returnedItem {h : Holder} (hh : h ∈ s.holders) {item : SelectItem}
    (hitem : item ∈ h.items) :
    (returnedItem s h.owner h.entity item).resultLabel? s.isAggregate h.entity =
      item.resultLabel? s.isAggregate h.entity := by
  obtain ⟨c | call | q, label⟩ := item
  · cases haggregate : s.isAggregate with
    | false => simp [returnedItem, haggregate]
    | true =>
      cases label with
      | none => simp [returnedItem, haggregate]
      | some l =>
        by_cases hl : l = c.name <;>
          simp [returnedItem, haggregate, SelectItem.resultLabel?, Option.filter, hl]
  · cases label <;> rfl
  · have hlabel := hs.wildcard_unlabelled _ (Statement.mem_allItems.2 ⟨h, hh, hitem⟩) q rfl
    obtain rfl : label = none := hlabel
    rfl

/-- The grouping columns that are not selected, entity by entity. -/
theorem unselectedNames_perm :
    (s.holders.flatMap fun h => (unselectedColumns s h.owner).map ColumnRef.name).Perm
      s.unselectedNames := by
  have howners : (s.holders.map Holder.owner).Nodup := by
    have hqualifiers := hs.isForest.qualifiers_nodup.map fun _ _ h => Option.some.inj h
    simpa [Statement.holders, Function.comp_def] using hqualifiers
  have hkeys : ∀ c ∈ s.groupBy.filter (fun g => !s.allItems.any fun item => item.selects g),
      c.qualifier ∈ s.holders.map Holder.owner := by
    intro c hc
    obtain ⟨h, hh, howner⟩ := (hs.groupBy_columns c (List.mem_of_mem_filter hc)).exists_holder
    exact List.mem_map.2 ⟨h, hh, howner⟩
  have hperm := (SelectList.perm_flatMap_filter ColumnRef.qualifier howners hkeys).map ColumnRef.name
  rw [List.flatMap_map, List.map_flatMap] at hperm
  simp only [unselectedColumns, List.filter_filter, Bool.and_comm]
  simpa only [Statement.unselectedNames, List.filter_filter] using hperm.symm

theorem resultLabels_returned_perm :
    (returned s condition).resultLabels.Perm (s.resultLabels ++ s.unselectedNames) := by
  have hitems : ∀ h ∈ s.holders,
      (returnedItems s h.owner h.entity h.items).filterMap
          (SelectItem.resultLabel? s.isAggregate h.entity) =
        h.items.filterMap (SelectItem.resultLabel? s.isAggregate h.entity) ++
          (unselectedColumns s h.owner).map ColumnRef.name := by
    intro h hh
    rw [returnedItems, List.filterMap_append, List.filterMap_map, List.filterMap_map]
    congr 1
    · exact List.filterMap_congr fun item hitem => resultLabel?_returnedItem hs hh hitem
    · rw [← List.filterMap_eq_map]
      apply List.filterMap_congr
      intro c hc
      have haggregate := s.isAggregate_iff.2 (Or.inl ⟨c, (mem_unselectedColumns.1 hc).1⟩)
      simp [SelectItem.resultLabel?, haggregate]
  rw [Statement.resultLabels_eq, Statement.resultLabels_eq, isAggregate_returned hs.toWellBound]
  refine ((holders_returned_perm hs.toWellBound condition).flatMap_right _).trans ?_
  rw [List.flatMap_map]
  refine (List.Perm.of_eq (List.flatMap_congr hitems)).trans ?_
  refine (List.flatMap_append_perm ..).symm.trans ?_
  exact (unselectedNames_perm hs).append_left _

end Labels

/-! ## When the returned statement has a text -/

section Writable

variable {condition : Option Condition} (hs : s.Writable)

include hs

theorem qualifiers_returned_iff :
    ((returned s condition).qualifiers.Pairwise fun q q' => Text.sameName q q' = false) ↔
      ∀ j ∈ s.joins, Text.sameName s.source.entity j.qualifier = false := by
  have hjoins : (s.joins.map fun j => Text.lower j.qualifier).Nodup := by
    have hall := Statement.pairwise_sameName_iff.1 hs.qualifiers_distinct
    simpa [Statement.qualifiers, Function.comp_def] using (List.nodup_cons.1 hall).2
  have hperm := (preorder_perm hs.isForest).map fun j => Text.lower j.qualifier
  have hlower : (returned s condition).qualifiers.map Text.lower =
      Text.lower s.source.entity :: (nestedJoins s).map fun j => Text.lower j.qualifier := by
    simp only [Statement.qualifiers, returned, List.map_cons, List.map_map]
    rfl
  rw [Statement.pairwise_sameName_iff, hlower, nestedJoins, List.nodup_cons, hperm.nodup_iff,
    hperm.mem_iff]
  rw [and_iff_left hjoins]
  constructor
  · intro hfresh j hj
    rw [Text.sameName, beq_eq_false_iff_ne]
    exact fun hsame => hfresh (List.mem_map.2 ⟨j, hj, hsame.symm⟩)
  · intro hnames hmem
    obtain ⟨j, hj, hsame⟩ := List.mem_map.1 hmem
    have hdiffer := hnames j hj
    rw [Text.sameName, beq_eq_false_iff_ne] at hdiffer
    exact hdiffer hsame.symm

/-- A star comes back for a star, and for a count of the primary key of the root. -/
theorem star_count_returned_iff :
    (∀ item ∈ (returned s condition).allItems, ∀ call, item.value = .aggregate call →
      call.argument = .star → call.function = .count ∧ call.distinct = false) ↔
      ∀ item ∈ s.items, item.value ≠
        .aggregate ⟨.count, .column ⟨none, s.source.entity ++ "id"⟩, true⟩ := by
  constructor
  · intro hstar item hitem hvalue
    have hmem := returnedItem_mem hs.toWellBound condition s.root_mem_holders hitem
    obtain ⟨value, label⟩ := item
    obtain rfl : value = _ := hvalue
    exact absurd (hstar _ hmem _ rfl (if_pos ⟨rfl, rfl, rfl⟩)).2 (by simp [returnedCall])
  · intro hkey item hitem call hvalue hstar
    rcases kept_or_grouped hs.toWellBound condition hitem with
      ⟨h, hh, kept, hkept, rfl⟩ | ⟨c, -, rfl⟩
    · obtain ⟨c | written | q, label⟩ := kept
      · cases hvalue
      · obtain rfl : returnedCall h.owner h.entity written = call := SelectValue.aggregate.inj hvalue
        rcases returnedCall_cases hs.toWellBound hh hkept with hsame | ⟨howner, distinct, rfl, hrows⟩
        · rw [hsame] at hstar ⊢
          exact hs.star_count _ (Statement.mem_allItems.2 ⟨h, hh, hkept⟩) _ rfl hstar
        · obtain rfl := Statement.eq_root_of_owner_eq_none hh howner
          rw [hrows]
          cases distinct with
          | false => exact ⟨rfl, rfl⟩
          | true => exact absurd rfl (hkey _ hkept)
      · cases hvalue
    · cases hvalue

theorem labels_returned_iff :
    ((returned s condition).resultLabels.map Text.lower).Nodup ↔
      (s.unselectedNames.map Text.lower).Nodup := by
  have hperm := (resultLabels_returned_perm hs condition).map Text.lower
  rw [hperm.nodup_iff, List.map_append, List.nodup_append]
  constructor
  · exact fun h => h.2.1
  · intro hunselected
    refine ⟨hs.labels_distinct, hunselected, ?_⟩
    rintro _ hlabel b hname rfl
    obtain ⟨label, hmem, rfl⟩ := List.mem_map.1 hlabel
    exact hs.labels_unselected label hmem hname

/-- The returned statement has a text exactly if the statement reparses. -/
theorem writable_returned_iff
    (hlower : condition.map (Filter.lower · false) = s.condition.map (Filter.lower · false)) :
    (returned s condition).Writable ↔ s.Reparses := by
  constructor
  · intro h
    exact ⟨(qualifiers_returned_iff hs).1 h.qualifiers_distinct,
      (labels_returned_iff hs).1 h.labels_distinct, (star_count_returned_iff hs).1 h.star_count⟩
  · rintro ⟨hroot, hunselected, hkey⟩
    have hlegible := legible_returned hs hlower
    refine
      { hlegible with
        qualifiers_distinct := (qualifiers_returned_iff hs).2 hroot
        star_count := (star_count_returned_iff hs).2 hkey
        star_root := ?_
        grouped := ?_
        labels_distinct := (labels_returned_iff hs).2 hunselected
        labels_unselected := ?_ }
    · intro j hj item hitem call hvalue
      obtain ⟨kept, hkept, rfl⟩ := exists_of_mem_joins_returned hs hj
      rcases mem_returnedItems.1 hitem with ⟨⟨c | written | q, label⟩, -, rfl⟩ | ⟨c, -, rfl⟩
      · cases hvalue
      · obtain rfl := SelectValue.aggregate.inj hvalue
        simp [returnedCall]
      · cases hvalue
      · cases hvalue
    · intro haggregate item hitem
      rw [isAggregate_returned hs.toWellBound] at haggregate
      simp only [mem_groupBy_returned hs.toWellBound]
      exact grouped_returned hs.toWellBound condition haggregate hitem
    · simp [unselectedNames_returned hs.toWellBound]

end Writable

end Fetch

end FetchQuery
