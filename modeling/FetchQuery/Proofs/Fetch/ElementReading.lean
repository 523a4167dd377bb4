import FetchQuery.Fetch.Draft
import FetchQuery.Proofs.Fetch.FilterReading
import FetchQuery.Proofs.Fetch.Returned

/-!
# Reading the elements of an entity

`Takes root owner xs d items d'` says that the elements `xs` below an entity give the select
items `items` and take the draft `d` to `d'`. Elements are taken in one after the other
(`Takes.append`), so there is one fact for each kind of element that a statement is written
with: the attributes of an entity (`takes_attributeNodes`), sort columns (`takes_orderNodes`),
the filter (`takes_filterNodes`) and links (`takes_linkNodes`). Nested links are taken in as the
joins in preorder.
-/

set_option autoImplicit false

namespace FetchQuery

theorem AggregateFunction.ofFetch?_fetch (f : AggregateFunction) : ofFetch? f.fetch = some f := by
  cases f <;> rfl

theorem AggregateFunction.fetch_eq_count {f : AggregateFunction} : f.fetch = "count" ↔ f = .count := by
  cases f <;> simp [fetch]

namespace Fetch

open Xml Xml.Node JoinForest

/-- Reading the elements `xs` below an entity takes a draft to another and gives select items. -/
def Takes (root : String) (owner : Owner) (xs : List Element) (d : Draft)
    (items : List SelectItem) (d' : Draft) : Prop :=
  readBody root owner xs d = .ok (items, d')

section Pieces

variable {root : String} {owner : Owner} {d d' d'' : Draft}

theorem takes_nil : Takes root owner [] d [] d := by
  rw [Takes, readBody]

/-- Elements are taken in one after the other. -/
theorem readBody_cons (x : Element) (xs : List Element) :
    readBody root owner (x :: xs) d = (readBody root owner [x] d).bind fun first =>
      (readBody root owner xs first.2).map fun rest => (first.1 ++ rest.1, rest.2) := by
  have hsame : ∀ result : Except ReadError (List SelectItem × Draft),
      result = result.map fun rest => ([] ++ rest.1, rest.2) := by
    intro result
    cases result <;> rfl
  simp only [readBody]
  split
  · simp [Except.map, Except.bind]
  split
  · simp [Except.map, Except.bind]
  split
  · exact hsame _
  split
  · exact hsame _
  split
  · cases readJoin root owner x d with
    | error e => rfl
    | ok d' => exact hsame _
  · exact hsame _

theorem Takes.append {xs ys : List Element} {items more : List SelectItem}
    (hxs : Takes root owner xs d items d') (hys : Takes root owner ys d' more d'') :
    Takes root owner (xs ++ ys) d (items ++ more) d'' := by
  induction xs generalizing d items with
  | nil =>
    rw [Takes, readBody] at hxs
    cases hxs
    exact hys
  | cons x xs ih =>
    rw [Takes, readBody_cons] at hxs
    rw [List.cons_append, Takes, readBody_cons]
    cases hfirst : readBody root owner [x] d with
    | error e => simp [hfirst, Except.bind] at hxs
    | ok first =>
      cases hrest : readBody root owner xs first.2 with
      | error e => simp [hfirst, hrest, Except.bind, Except.map] at hxs
      | ok rest =>
        rw [hfirst, Except.bind, hrest] at hxs
        cases hxs
        have happend : readBody root owner (xs ++ ys) first.2 = .ok (rest.1 ++ more, d'') := ih hrest
        rw [Except.bind, happend, List.append_assoc]
        rfl

@[simp] theorem Draft.warn_nil : d.warn [] = d := by
  simp [warn]

theorem takes_attribute {attributes : List (String × String)} {item : SelectItem}
    (h : readAttribute owner ⟨"attribute", attributes, [], ""⟩ d = (some item, d')) :
    Takes root owner [⟨"attribute", attributes, [], ""⟩] d [item] d' := by
  rw [Takes, readBody]
  simp [h, readBody, Except.map]

theorem readAttribute_plain (name : String) (label : Option String) :
    readAttribute owner
        ⟨"attribute", [("name", name)] ++ (label.map fun l => ("alias", l)).toList, [], ""⟩ d =
      (some ⟨.column ⟨owner.qualifier, name⟩, label⟩, d) := by
  cases label <;>
    simp [readAttribute, Element.attr?, Element.flag, dateGroupingWarning]

theorem readAttribute_grouped (name label : String) :
    readAttribute owner
        ⟨"attribute", [("name", name), ("alias", label), ("groupby", "true")], [], ""⟩ d =
      (some ⟨.column ⟨owner.qualifier, name⟩, (some label).filter (· != name)⟩,
        d.group ⟨owner.qualifier, name⟩) := by
  have hflag : Text.sameName "true" "true" = true := by decide
  simp [readAttribute, Element.attr?, Element.flag, dateGroupingWarning, hflag]

theorem readAttribute_aggregate (function : AggregateFunction) (name label : String) (distinct : Bool) :
    readAttribute owner
        ⟨"attribute", [("name", name), ("alias", label), ("aggregate", function.fetch)] ++
          if distinct then [("distinct", "true")] else [], [], ""⟩ d =
      (some ⟨.aggregate ⟨function, readArgument owner function.fetch name, distinct⟩, some label⟩, d) := by
  have hflag : Text.sameName "true" "true" = true := by decide
  cases distinct <;>
    simp [readAttribute, readAggregate, Element.attr?, Element.flag, dateGroupingWarning,
      AggregateFunction.ofFetch?_fetch, hflag]

/-- A draft that has taken in grouping columns. -/
def Draft.groupAll (d : Draft) (columns : List ColumnRef) : Draft :=
  { d with groupBy := insertColumns d.groupBy columns }

theorem Draft.group_eq (c : ColumnRef) : d.group c = d.groupAll [c] := by
  simp only [group, groupAll, insertColumns, insertColumn, List.foldl_cons, List.foldl_nil]
  split <;> rfl

theorem Draft.groupAll_nil : d.groupAll [] = d :=
  rfl

theorem Draft.groupAll_append (xs ys : List ColumnRef) :
    d.groupAll (xs ++ ys) = (d.groupAll xs).groupAll ys := by
  simp only [groupAll, insertColumns_append]

section Items

variable {s : Statement} (indent depth : Nat)

/-- The element of a select item is read as the item that comes back for it. -/
theorem takes_itemNode {item : SelectItem} (howned : item.value.OwnedBy owner.qualifier)
    (hgrouped : s.isAggregate = true → ∀ c, item.value = .column c → c ∈ s.groupBy) :
    Takes root owner (elements indent depth [itemNode s owner.entity item]) d
      [returnedItem s owner.qualifier owner.entity item]
      (d.groupAll (groupedColumns s [returnedItem s owner.qualifier owner.entity item])) := by
  obtain ⟨value, label⟩ := item
  cases value with
  | wildcard q =>
    rw [itemNode, elements_leaf, Takes, readBody]
    simp [readBody, Except.map, returnedItem, groupedColumns, Draft.groupAll_nil]
  | aggregate call =>
    simp only [itemNode, aggregateNode, elements_leaf]
    have hargument : readArgument owner call.function.fetch (call.attributeName owner.entity) =
        (returnedCall owner.qualifier owner.entity call).argument := by
      simp only [readArgument, AggregateFunction.fetch_eq_count, returnedCall]
    refine takes_attribute ?_
    rw [readAttribute_aggregate, hargument]
    simp [returnedItem, groupedColumns, Draft.groupAll_nil, returnedCall]
  | column c =>
    have hc : (⟨owner.qualifier, c.name⟩ : ColumnRef) = c := ColumnRef.eq_of_qualifier howned
    cases haggregate : s.isAggregate with
    | false =>
      have hnode : itemNode s owner.entity ⟨.column c, label⟩ = _ :=
        columnNode_of_plain haggregate c label
      rw [hnode, elements_leaf]
      refine takes_attribute ?_
      rw [readAttribute_plain, hc]
      simp [returnedItem, groupedColumns, haggregate, Draft.groupAll_nil]
    | true =>
      have hlabel : (some (label.getD c.name)).filter (· != c.name) =
          label.filter (· != c.name) := by
        cases label <;> simp
      have hnode : itemNode s owner.entity ⟨.column c, label⟩ = _ :=
        columnNode_of_grouped (hgrouped haggregate c rfl) label
      rw [hnode, groupedNode, elements_leaf]
      refine takes_attribute ?_
      rw [readAttribute_grouped, hlabel, hc]
      simp [returnedItem, groupedColumns, haggregate, Draft.group_eq]

/-- The element of a grouping column that is not selected is read as a select item. -/
theorem takes_groupedNode {c : ColumnRef} (hc : c.qualifier = owner.qualifier)
    (haggregate : s.isAggregate = true) :
    Takes root owner (elements indent depth [groupedNode c.name c.name]) d [⟨.column c, none⟩]
      (d.groupAll (groupedColumns s [⟨.column c, none⟩])) := by
  rw [groupedNode, elements_leaf]
  refine takes_attribute ?_
  rw [readAttribute_grouped, ColumnRef.eq_of_qualifier hc]
  simp [groupedColumns, haggregate, Draft.group_eq]

/-- Elements of items are taken in one after the other. -/
theorem takes_map {α : Type} {node : α → Node} {item : α → SelectItem} {as : List α}
    (h : ∀ a ∈ as, ∀ d : Draft, Takes root owner (elements indent depth [node a]) d [item a]
      (d.groupAll (groupedColumns s [item a]))) (d : Draft) :
    Takes root owner (elements indent depth (as.map node)) d (as.map item)
      (d.groupAll (groupedColumns s (as.map item))) := by
  induction as generalizing d with
  | nil =>
    have hnil : groupedColumns s [] = [] := by simp [groupedColumns]
    simpa [elements, hnil, Draft.groupAll_nil] using takes_nil
  | cons a as ih =>
    have hrest := ih (fun b hb => h b (List.mem_cons_of_mem a hb))
    change Takes root owner (elements indent depth ([node a] ++ as.map node)) d
      ([item a] ++ as.map item) (d.groupAll (groupedColumns s ([item a] ++ as.map item)))
    rw [elements_append, groupedColumns_append, Draft.groupAll_append]
    exact (h a List.mem_cons_self d).append (hrest _)

/-- The attribute elements of an entity are read as the items that come back for it. -/
theorem takes_attributeNodes {items : List SelectItem}
    (howned : ∀ item ∈ items, item.value.OwnedBy owner.qualifier)
    (hgrouped : s.isAggregate = true → ∀ item ∈ items, ∀ c, item.value = .column c →
      c ∈ s.groupBy) :
    Takes root owner (elements indent depth (attributeNodes s owner.qualifier owner.entity items)) d
      (returnedItems s owner.qualifier owner.entity items)
      (d.groupAll (groupedColumns s (returnedItems s owner.qualifier owner.entity items))) := by
  rw [attributeNodes, returnedItems, elements_append, groupedColumns_append, Draft.groupAll_append]
  refine Takes.append (takes_map indent depth ?_ d) (takes_map indent depth ?_ _)
  · intro item hitem d
    exact takes_itemNode indent depth (howned item hitem) fun h => hgrouped h item hitem
  · intro c hc d
    obtain ⟨hgroup, hqualifier, -⟩ := mem_unselectedColumns.1 hc
    exact takes_groupedNode indent depth hqualifier (s.isAggregate_iff.2 (Or.inl ⟨c, hgroup⟩))

end Items

/-! ## Sort columns and the filter -/

/-- The element of a sort column is read as the column of its key. -/
theorem exists_orderElement (s : Statement) (item : OrderItem) (indent depth : Nat) :
    ∃ x : Element, elements indent depth [orderNode s item] = [x] ∧ x.name = "order" ∧
      readOrder none x = .ok (returnedOrder s item) := by
  refine ⟨_, elements_leaf .., rfl, ?_⟩
  rw [returnedOrder]
  have htrue : Text.sameName "true" "true" = true := by decide
  have hfalse : Text.sameName "false" "true" = false := by decide
  cases item.direction <;> obtain (_ | q) | l := SortKey.ofOrder s item <;>
    simp [readOrder, Element.attr?, Element.flag, SortKey.attributes, SortKey.asColumn, htrue,
      hfalse]

/-- Order elements are read as the columns of their sort keys. -/
theorem takes_orderNodes (s : Statement) (indent depth : Nat) (orders : List OrderItem)
    (howner : owner.qualifier = none) (d : Draft) :
    Takes root owner (elements indent depth (orders.map (orderNode s))) d []
      { d with orderBy := d.orderBy ++ orders.map (returnedOrder s) } := by
  induction orders generalizing d with
  | nil => simpa [elements] using takes_nil
  | cons item orders ih =>
    have hfirst : Takes root owner (elements indent depth [orderNode s item]) d []
        { d with orderBy := d.orderBy ++ [returnedOrder s item] } := by
      obtain ⟨x, hx, hname, hread⟩ := exists_orderElement s item indent depth
      rw [hx, Takes, readBody]
      simp [hname, addOrder, howner, hread, readBody]
    have hrest := hfirst.append (ih { d with orderBy := d.orderBy ++ [returnedOrder s item] })
    rw [← elements_append] at hrest
    simpa using hrest

/-- The filter element of a statement is read as a condition with the same filter. -/
theorem takes_filterNodes {s : Statement}
    (hamong : ∀ e, s.condition = some e → ∀ t ∈ e.tests, t.2 ≠ .among []) (indent depth : Nat)
    (howner : owner.qualifier = none) (d : Draft) :
    ∃ condition : Option Condition,
      Takes root owner (elements indent depth (filterNodes s)) d []
          { d with conditions := d.conditions ++ condition.toList } ∧
        condition.map (Filter.lower · false) = s.condition.map (Filter.lower · false) := by
  rw [filterNodes]
  cases hcondition : s.condition with
  | none => exact ⟨none, by simpa [elements] using takes_nil, rfl⟩
  | some e =>
    obtain ⟨x, e', hx, hname, hread, hlower⟩ :=
      Filter.exists_readFilter_ofCondition (hamong e hcondition) indent depth
    refine ⟨some e', ?_, congrArg some hlower⟩
    have hwarning : outerFilterWarning owner = [] := by simp [outerFilterWarning, howner]
    rw [hx, Takes, readBody]
    simp [hname, addFilter, howner, hread, hwarning, readBody]

end Pieces

/-! ## Links -/

/-- The warnings for joins whose qualifier is the name of the root entity. -/
def rootWarnings (root : String) (joins : List Join) : List Warning :=
  joins.flatMap fun j => if j.qualifier = root then [.repeatedQualifier j.qualifier] else []

theorem rootWarnings_eq (root : String) (joins : List Join) :
    rootWarnings root joins =
      (joins.filter fun j => j.qualifier == root).map fun j => .repeatedQualifier j.qualifier := by
  induction joins with
  | nil => rfl
  | cons j joins ih =>
    rw [rootWarnings, List.flatMap_cons, ← rootWarnings, ih]
    by_cases hroot : j.qualifier = root <;> simp [hroot]

/-- A draft that has taken in the links of joins. -/
def Draft.join (s : Statement) (d : Draft) (joins : List Join) : Draft :=
  { d with
    joins := d.joins ++ joins.map (returnedJoin s)
    groupBy := insertColumns d.groupBy
      (groupedColumns s (joins.flatMap fun j => (returnedJoin s j).items))
    warnings := d.warnings ++ rootWarnings s.source.entity joins }

theorem Draft.join_append (s : Statement) (d : Draft) (xs ys : List Join) :
    d.join s (xs ++ ys) = (d.join s xs).join s ys := by
  simp [join, rootWarnings, groupedColumns_append, insertColumns_append]

theorem Draft.map_qualifier_join (s : Statement) (d : Draft) (joins : List Join) :
    (d.join s joins).joins.map Join.qualifier =
      d.joins.map Join.qualifier ++ joins.map Join.qualifier := by
  simp only [join, List.map_append, List.map_map]
  rfl

theorem readLink_linkAttributes (j : Join) (children : List Element) (text : String) :
    readLink j.parent ⟨"link-entity", linkAttributes j, children, text⟩ =
      .ok ⟨{ j with items := [] }, []⟩ := by
  obtain ⟨entity, label, kind, parent, fromAttribute, toAttribute, items⟩ := j
  cases label <;> cases kind <;>
    simp [readLink, required, linkKind, Element.attr?, linkAttributes, JoinKind.fetch, bind,
      Except.bind, pure, Except.pure]

/-- A link element has the elements of its children, whether it is written in one tag or two. -/
theorem exists_linkElement (indent depth : Nat) (attributes : List (String × String))
    (children : List Node) :
    ∃ text, elements indent depth [if children.isEmpty then .leaf "link-entity" attributes
        else .branch "link-entity" attributes children] =
      [⟨"link-entity", attributes, elements indent (depth + 1) children, text⟩] := by
  cases children with
  | nil =>
    refine ⟨"", ?_⟩
    simp [elements]
  | cons child children => exact ⟨_, elements_branch ..⟩

theorem qualifierWarning_eq {root q : String} {joins : List Join}
    (h : q ∉ joins.map Join.qualifier) :
    qualifierWarning root q joins = if q = root then [.repeatedQualifier q] else [] := by
  have hany : joins.any (fun j => j.qualifier == q) = false := by
    rw [List.any_eq_false]
    intro j hj hq
    exact h (List.mem_map.2 ⟨j, hj, by simpa using hq⟩)
  simp [qualifierWarning, hany]

section Links

variable {s : Statement} (hs : s.WellBound) (indent : Nat)

include hs

/-- A link element is taken in as its join, followed by the joins of the links below it. -/
theorem takes_link (depth : Nat) {owner : Owner} {j : Join} (hj : j ∈ s.joins)
    (hparent : j.parent = owner.qualifier) {below : List Join} {links : List Node}
    (hlinks : ∀ d : Draft,
      (d.joins.map Join.qualifier ++ below.map Join.qualifier).Nodup →
        Takes s.source.entity (ownerOf j) (elements indent (depth + 1) links) d [] (d.join s below))
    {d : Draft}
    (hd : (d.joins.map Join.qualifier ++ (j :: below).map Join.qualifier).Nodup) :
    let children := attributeNodes s (some j.qualifier) j.entity j.items ++ links
    Takes s.source.entity owner
      (elements indent depth [if children.isEmpty then .leaf "link-entity" (linkAttributes j)
        else .branch "link-entity" (linkAttributes j) children]) d [] (d.join s (j :: below)) := by
  intro children
  obtain ⟨text, hx⟩ := exists_linkElement indent depth (linkAttributes j) children
  have hfresh : j.qualifier ∉ d.joins.map Join.qualifier := by
    intro hmem
    exact (List.nodup_append.1 hd).2.2 _ hmem _ (by simp) rfl
  let items := returnedItems s (some j.qualifier) j.entity j.items
  let opened : Draft :=
    { d with
      joins := d.joins ++ [{ j with items := [] }]
      warnings := d.warnings ++ rootWarnings s.source.entity [j] }
  have hopened : d.addJoin s.source.entity ⟨{ j with items := [] }, []⟩ = opened := by
    have hwarning : qualifierWarning s.source.entity j.qualifier d.joins = _ :=
      qualifierWarning_eq hfresh
    simp only [Draft.addJoin, Draft.warn, List.nil_append, opened, rootWarnings,
      List.flatMap_singleton]
    rw [← hwarning]
    rfl
  -- the items of the join, then the links below it
  have hbody : Takes s.source.entity (ownerOf j) (elements indent (depth + 1) children) opened
      (items ++ []) ((opened.groupAll (groupedColumns s items)).join s below) := by
    rw [elements_append]
    refine (takes_attributeNodes indent (depth + 1) (hs.join_items j hj) ?_).append (hlinks _ ?_)
    · intro haggregate item hitem
      refine (hs.grouped haggregate item ?_).2
      exact List.mem_append_right _ (List.mem_flatMap.2 ⟨j, hj, hitem⟩)
    · simpa [opened, Draft.groupAll, Join.qualifier] using hd
  -- the join is put in its place once its items are known
  have hset : (opened.joins ++ below.map (returnedJoin s)).set d.joins.length
      { j with items } = d.joins ++ (j :: below).map (returnedJoin s) := by
    simp [opened, returnedJoin, items]
  have hjoin : readJoin s.source.entity owner
      ⟨"link-entity", linkAttributes j, elements indent (depth + 1) children, text⟩ d =
        .ok (d.join s (j :: below)) := by
    rw [readJoin, ← hparent, readLink_linkAttributes]
    simp only [Except.bind, hopened]
    rw [show ownerOf { j with items := [] } = ownerOf j from rfl, hbody]
    simp only [Except.map, List.append_nil, Draft.join, Draft.groupAll, hset]
    simp [opened, rootWarnings, groupedColumns_append, insertColumns_append, items, returnedJoin]
  rw [hx, Takes, readBody]
  simp [hjoin, Except.bind, readBody]

/-- The links below an entity are taken in as its joins in preorder. -/
theorem takes_linkNodes (levels : Nat) (owner : Owner) (depth : Nat) {d : Draft}
    (hd : (d.joins.map Join.qualifier ++
      (preorder s.joins levels owner.qualifier).map Join.qualifier).Nodup) :
    Takes s.source.entity owner (elements indent depth (linkNodes s levels owner.qualifier)) d []
      (d.join s (preorder s.joins levels owner.qualifier)) := by
  induction levels generalizing owner depth d with
  | zero =>
    simpa [linkNodes, elements, preorder, Draft.join, rootWarnings, groupedColumns, insertColumns]
      using takes_nil
  | succ levels ih =>
    have hchildren : ∀ j ∈ childrenOf s.joins owner.qualifier,
        j ∈ s.joins ∧ j.parent = owner.qualifier := fun j hj => mem_childrenOf.1 hj
    rw [preorder] at hd ⊢
    rw [linkNodes, ← childrenOf]
    generalize childrenOf s.joins owner.qualifier = children at hchildren hd ⊢
    -- siblings are taken in from left to right
    induction children generalizing d with
    | nil =>
      simpa [elements, Draft.join, rootWarnings, groupedColumns, insertColumns] using takes_nil
    | cons j children ihc =>
      obtain ⟨hj, hparent⟩ := hchildren j List.mem_cons_self
      rw [List.flatMap_cons, List.map_append, ← List.append_assoc] at hd
      have hfirst := takes_link hs indent depth hj hparent (fun d' hd' => ih (ownerOf j) (depth + 1) hd')
        (List.nodup_append.1 hd).1
      have hrest := ihc (d := d.join s (j :: preorder s.joins levels (some j.qualifier)))
        (fun j' hj' => hchildren j' (List.mem_cons_of_mem j hj'))
        (by rwa [Draft.map_qualifier_join])
      rw [List.flatMap_cons, Draft.join_append, List.map_cons, ← List.singleton_append,
        elements_append]
      exact hfirst.append hrest

end Links

end Fetch

end FetchQuery
