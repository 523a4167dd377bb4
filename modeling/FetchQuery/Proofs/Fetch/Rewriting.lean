import FetchQuery.Proofs.Fetch.StatementReading

/-!
# Writing a returned statement again

A returned statement is written with the same attributes, filter and links as the statement it
comes from (`entityNode_returned`). So the two texts differ at most in the sort columns, and
they are equal exactly if every sort key comes back (`render_returned_iff`).
-/

set_option autoImplicit false

namespace FetchQuery.Fetch

open Xml Xml.Node JoinForest

/-! ## Attributes, links and filter -/

section Nodes

variable {s : Statement} (hs : s.WellBound) {condition : Option Condition}

include hs

/-- An item is written again as it was. -/
theorem itemNode_returned {h : Holder} (hh : h ∈ s.holders) {item : SelectItem}
    (hitem : item ∈ h.items) :
    itemNode (returned s condition) h.entity (returnedItem s h.owner h.entity item) =
      itemNode s h.entity item := by
  obtain ⟨c | call | owner, label⟩ := item
  · change columnNode (returned s condition) c
      (if s.isAggregate then label.filter (· != c.name) else label) = columnNode s c label
    cases haggregate : s.isAggregate with
    | false =>
      have hreturned := haggregate
      rw [← isAggregate_returned hs condition] at hreturned
      rw [columnNode_of_plain haggregate, columnNode_of_plain hreturned]
      rfl
    | true =>
      have hgroup : c ∈ s.groupBy :=
        (hs.grouped haggregate _ (Statement.mem_allItems.2 ⟨h, hh, hitem⟩)).2 c rfl
      rw [columnNode_of_grouped hgroup,
        columnNode_of_grouped ((mem_groupBy_returned hs condition).2 hgroup), if_pos rfl]
      cases label with
      | none => rfl
      | some l => by_cases hl : l = c.name <;> simp [Option.filter, hl]
  · change aggregateNode h.entity (returnedCall h.owner h.entity call)
      (some (label.getD (call.defaultLabel h.entity))) = aggregateNode h.entity call label
    have hname : (returnedCall h.owner h.entity call).attributeName h.entity =
        call.attributeName h.entity := by
      simp only [returnedCall]
      split_ifs with hstar
      · exact hstar.2.2.symm
      · rfl
    rw [aggregateNode, aggregateNode, hname]
    rfl
  · rfl

/-- The attributes of an entity are written again as they were. -/
theorem attributeNodes_returned {h : Holder} (hh : h ∈ s.holders) :
    attributeNodes (returned s condition) h.owner h.entity
        (returnedItems s h.owner h.entity h.items) =
      attributeNodes s h.owner h.entity h.items := by
  rw [attributeNodes, unselectedColumns_returned hs, List.map_nil, List.append_nil, returnedItems,
    List.map_append, List.map_map, List.map_map, attributeNodes]
  congr 1
  · exact List.map_congr_left fun item hitem => itemNode_returned hs hh hitem
  · apply List.map_congr_left
    intro c hc
    have hgroup := (mem_unselectedColumns.1 hc).1
    exact columnNode_of_grouped ((mem_groupBy_returned hs condition).2 hgroup) none

theorem childrenOf_returned (owner : Option String) :
    childrenOf (returned s condition).joins owner =
      (childrenOf s.joins owner).map (returnedJoin s) := by
  rw [← childrenOf_preorder hs.isForest, childrenOf, childrenOf, ← nestedJoins, returned]
  exact List.filter_map

/-- The links are nested again as they were. -/
theorem linkNodes_returned (levels : Nat) (owner : Option String) :
    linkNodes (returned s condition) levels owner = linkNodes s levels owner := by
  induction levels generalizing owner with
  | zero => rfl
  | succ levels ih =>
    rw [linkNodes, linkNodes, ← childrenOf, ← childrenOf, childrenOf_returned hs, List.map_map]
    apply List.map_congr_left
    intro j hj
    have hattributes : attributeNodes (returned s condition) (some (returnedJoin s j).qualifier)
        (returnedJoin s j).entity (returnedJoin s j).items =
          attributeNodes s (some j.qualifier) j.entity j.items :=
      attributeNodes_returned hs (Statement.join_mem_holders (mem_childrenOf.1 hj).1)
    simp only [Function.comp_apply, hattributes, ih]
    rfl

theorem length_joins_returned : (returned s condition).joins.length = s.joins.length := by
  change ((nestedJoins s).map _).length = _
  rw [List.length_map]
  exact (preorder_perm hs.isForest).length_eq

theorem fetchAttributes_returned : fetchAttributes (returned s condition) = fetchAttributes s := by
  rw [fetchAttributes, isAggregate_returned hs, fetchAttributes]
  rfl

end Nodes

/-- The filter is written again as it was. -/
theorem filterNodes_returned {s : Statement} {condition : Option Condition}
    (hlower : condition.map (Filter.lower · false) = s.condition.map (Filter.lower · false)) :
    filterNodes (returned s condition) = filterNodes s := by
  have hcondition : (returned s condition).condition = condition := rfl
  rw [filterNodes, filterNodes, hcondition]
  cases condition with
  | none =>
    rw [Option.map_none, eq_comm, Option.map_eq_none_iff] at hlower
    rw [hlower]
  | some e' =>
    obtain ⟨e, he, hsame⟩ := Option.map_eq_some_iff.1 hlower.symm
    simp only [he, Filter.ofCondition, hsame]

/-- The entity element is written again as it was, except for its sort columns. -/
theorem entityNode_returned {s : Statement} (hs : s.WellBound) {condition : Option Condition}
    (hlower : condition.map (Filter.lower · false) = s.condition.map (Filter.lower · false)) :
    entityNode (returned s condition) = .branch "entity" [("name", s.source.entity)]
      (attributeNodes s none s.source.entity s.items ++
        (s.orderBy.map fun item => orderNode (returned s condition) (returnedOrder s item)) ++
        filterNodes s ++ linkNodes s s.joins.length none) := by
  have hattributes : attributeNodes (returned s condition) none s.source.entity
      (returned s condition).items = attributeNodes s none s.source.entity s.items :=
    attributeNodes_returned hs s.root_mem_holders
  have horders : (returned s condition).orderBy.map (orderNode (returned s condition)) =
      s.orderBy.map fun item => orderNode (returned s condition) (returnedOrder s item) :=
    List.map_map
  rw [entityNode, length_joins_returned hs, linkNodes_returned hs, filterNodes_returned hlower, horders]
  exact congrArg (Node.branch _ _) (by rw [← hattributes]; rfl)

/-! ## Sort columns -/

/-- Different sort keys are written with different attributes. -/
theorem SortKey.attributes_injective {key key' : SortKey} (h : key.attributes = key'.attributes) :
    key = key' := by
  obtain (_ | q) | l := key <;> obtain (_ | q') | l' := key' <;> simp_all [attributes]

theorem orderNode_eq_iff {s s' : Statement} (item : OrderItem) :
    orderNode s' (returnedOrder s item) = orderNode s item ↔
      SortKey.ofOrder s' (returnedOrder s item) = SortKey.ofOrder s item := by
  have hdirection : (returnedOrder s item).direction = item.direction := rfl
  rw [orderNode, orderNode, hdirection]
  constructor
  · intro h
    exact SortKey.attributes_injective (List.append_cancel_right (Node.leaf.inj h).2)
  · intro h
    rw [h]

/-- The statement is written again with the same text exactly if its sort keys come back. -/
theorem render_returned_iff {s : Statement} (hs : s.WellBound) (hcomments : s.comments = [])
    {condition : Option Condition}
    (hlower : condition.map (Filter.lower · false) = s.condition.map (Filter.lower · false))
    (indent : Nat) :
    render indent (returned s condition) = render indent s ↔
      ∀ item ∈ s.orderBy,
        SortKey.ofOrder (returned s condition) (returnedOrder s item) = SortKey.ofOrder s item := by
  constructor
  · intro hrender
    have hparse := parse_render (returned s condition) indent
    rw [hrender, parse_render s indent] at hparse
    have helements := (Element.mk.inj (Document.mk.inj (Except.ok.inj hparse)).2).2.2.1
    rw [entityNode_returned hs hlower, entityNode, elements_branch, elements_branch] at helements
    have hchildren := (Element.mk.inj (List.cons.inj helements).1).2.2.1
    simp only [elements_append, List.append_cancel_right_eq, List.append_cancel_left_eq] at hchildren
    intro item hitem
    refine (orderNode_eq_iff item).1 (eq_of_elements_map ?_ ?_ hchildren.symm item hitem)
    · exact fun _ => ⟨_, _, rfl⟩
    · exact fun _ => ⟨_, _, rfl⟩
  · intro hkeys
    have horders : (s.orderBy.map fun item =>
        orderNode (returned s condition) (returnedOrder s item)) = s.orderBy.map (orderNode s) :=
      List.map_congr_left fun item hitem => (orderNode_eq_iff item).2 (hkeys item hitem)
    rw [render, render, document, document, hcomments, fetchAttributes_returned hs,
      entityNode_returned hs hlower, horders, entityNode]
    rfl

end FetchQuery.Fetch
