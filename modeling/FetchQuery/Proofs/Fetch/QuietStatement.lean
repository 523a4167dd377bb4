import FetchQuery.Proofs.Fetch.FilterContents
import FetchQuery.Proofs.Sql.RoundTrip

/-!
# Statements read without warnings

Warnings leave little room for what a statement can be. A statement that is read without any is
resolved once its text spells out the star of an empty select list (`ReadQuietly.resolved`): all
its columns name known entities and every entity holds its own items. Its wildcards carry no
labels, a star is only counted on the root, and every grouping column is selected.

`AttributeGives` says what an attribute element can give, and `ReadQuietly.holder_iff` that the
items of the entities are those of their elements.
-/

set_option autoImplicit false

namespace FetchQuery

namespace Fetch

open Xml

/-- What an attribute element without a warning gives: a column, or an aggregate that has a
label. -/
inductive AttributeGives (owner : Owner) (e : Element) : SelectItem → Prop where
  | column {name : String} (hname : e.attr? "name" = some name)
      (haggregate : e.attr? "aggregate" = none) :
      AttributeGives owner e ⟨.column ⟨owner.qualifier, name⟩,
        if e.flag "groupby" then (e.attr? "alias").filter (· != name) else e.attr? "alias"⟩
  | aggregate {name function label : String} {f : AggregateFunction}
      (hname : e.attr? "name" = some name) (haggregate : e.attr? "aggregate" = some function)
      (hfunction : AggregateFunction.ofFetch? function = some f)
      (halias : e.attr? "alias" = some label) :
      AttributeGives owner e
        ⟨.aggregate ⟨f, readArgument owner function name, e.flag "distinct"⟩, some label⟩

section Elements

variable {owner : Owner} {e : Element}

theorem attributeGives_of_quiet (hname : e.name = "attribute") (hquiet : warningsOf owner e = []) :
    ∃ item, itemOf? owner e = some item ∧ AttributeGives owner e item := by
  rw [warningsOf, if_pos hname] at hquiet
  rw [itemOf?, if_pos hname]
  rw [readAttribute] at hquiet ⊢
  -- a name that is missing, an unknown function and an aggregate without an alias are warned of
  cases hattr : e.attr? "name" with
  | none => simp [hattr, Draft.warn] at hquiet
  | some name =>
    simp only [hattr] at hquiet ⊢
    cases haggregate : e.attr? "aggregate" with
    | none =>
      simp only
      split
      · next hgroup =>
        exact ⟨_, rfl, by simpa [hgroup] using AttributeGives.column hattr haggregate⟩
      · next hgroup =>
        exact ⟨_, rfl, by simpa [hgroup] using AttributeGives.column hattr haggregate⟩
    | some function =>
      simp only [haggregate, Draft.warn, List.nil_append, List.append_eq_nil_iff] at hquiet ⊢
      rw [readAggregate] at hquiet ⊢
      cases hfunction : AggregateFunction.ofFetch? function with
      | none => simp [hfunction] at hquiet
      | some f =>
        simp only [hfunction] at hquiet ⊢
        cases halias : e.attr? "alias" with
        | none => simp [halias] at hquiet
        | some label => exact ⟨_, rfl, .aggregate hattr haggregate hfunction halias⟩

/-- An element without a warning that gives an item is an attribute, or stands for all
attributes. -/
theorem gives_of_itemOf {item : SelectItem} (hquiet : warningsOf owner e = [])
    (hitem : itemOf? owner e = some item) :
    e.name = "attribute" ∧ AttributeGives owner e item ∨
      e.name = "all-attributes" ∧ item = ⟨.wildcard owner.qualifier, none⟩ := by
  by_cases hname : e.name = "attribute"
  · obtain ⟨item', hitem', hgives⟩ := attributeGives_of_quiet hname hquiet
    rw [hitem] at hitem'
    cases hitem'
    exact .inl ⟨hname, hgives⟩
  · rw [itemOf?, if_neg hname] at hitem
    split at hitem
    · next hall =>
      cases hitem
      exact .inr ⟨hall, rfl⟩
    · cases hitem

/-- A star is read only where the rows of the root are counted. -/
theorem readArgument_eq_star {function name : String}
    (h : readArgument owner function name = .star) :
    function = "count" ∧ owner.qualifier = none ∧ name = owner.entity ++ "id" := by
  rw [readArgument] at h
  split at h
  · assumption
  · cases h

theorem AttributeGives.owned {item : SelectItem} (h : AttributeGives owner e item) :
    item.value.OwnedBy owner.qualifier := by
  cases h with
  | column hname haggregate => exact rfl
  | @aggregate name function label f hname haggregate hfunction halias =>
    rw [SelectValue.OwnedBy]
    cases hargument : readArgument owner function name with
    | star => exact (readArgument_eq_star hargument).2.1
    | column c =>
      rw [readArgument] at hargument
      split at hargument
      · cases hargument
      · cases hargument
        rfl

end Elements

/-- Sort columns that are retained without warnings are all there, on known entities. -/
theorem retainOrders_quiet (known : Known) (items : List OrderItem)
    (hquiet : (retainOrders known items).warnings = []) :
    List.Forall₂ (fun item kept => known.column? item.column = some kept.column ∧
      kept.direction = item.direction) items (retainOrders known items).value := by
  induction items with
  | nil => exact .nil
  | cons item rest ih =>
    rw [retainOrders] at hquiet ⊢
    cases hcolumn : known.column? item.column with
    | some c =>
      simp only [hcolumn] at hquiet ⊢
      exact .cons ⟨hcolumn, rfl⟩ (ih hquiet)
    | none =>
      -- only a qualified column can be unknown, and it is warned of
      simp only [hcolumn, List.append_eq_nil_iff] at hquiet
      obtain ⟨⟨q, name⟩, direction⟩ := item
      cases q with
      | none => cases hcolumn
      | some q => cases hquiet.1

section Quiet

variable {entity : Element} {s : Statement} (h : ReadQuietly entity s)

include h

theorem ReadQuietly.rootOwner_entity : (rootOwner entity).entity = s.source.entity := by
  rw [rootOwner, h.name, Option.getD_some]

/-- The items that the entities of the statement hold are those that the elements give. -/
theorem ReadQuietly.holder_iff (q : Option String) (name : String) (item : SelectItem) :
    (∃ hd ∈ s.holders, hd.owner = q ∧ hd.entity = name ∧ item ∈ hd.items) ↔
      ∃ p ∈ entityContents entity, p.1.qualifier = q ∧ p.1.entity = name ∧
        itemOf? p.1 p.2 = some item := by
  rw [entityContents, ← exists_holder_iff, ← h.joins_eq, ← h.items_eq, h.rootOwner_entity]
  constructor
  · rintro ⟨hd, hhd, rfl, rfl, hitem⟩
    rcases List.mem_cons.1 hhd with rfl | hhd
    · exact .inl ⟨rfl, rfl, hitem⟩
    · obtain ⟨j, hj, rfl⟩ := List.mem_map.1 hhd
      exact .inr ⟨j, hj, rfl, rfl, hitem⟩
  · rintro (⟨rfl, rfl, hitem⟩ | ⟨j, hj, rfl, rfl, hitem⟩)
    · exact ⟨_, s.root_mem_holders, rfl, rfl, hitem⟩
    · exact ⟨_, Statement.join_mem_holders hj, rfl, rfl, hitem⟩

/-- Every item comes from an element of the entity that holds it. -/
theorem ReadQuietly.exists_element {hd : Holder} (hhd : hd ∈ s.holders) {item : SelectItem}
    (hitem : item ∈ hd.items) :
    ∃ p ∈ entityContents entity, p.1.qualifier = hd.owner ∧ p.1.entity = hd.entity ∧
      itemOf? p.1 p.2 = some item :=
  (h.holder_iff _ _ _).1 ⟨hd, hhd, rfl, rfl, hitem⟩

theorem ReadQuietly.owned {hd : Holder} (hhd : hd ∈ s.holders) {item : SelectItem}
    (hitem : item ∈ hd.items) : item.value.OwnedBy hd.owner := by
  obtain ⟨p, hp, howner, -, hgives⟩ := h.exists_element hhd hitem
  rw [← howner]
  rcases gives_of_itemOf (h.quiet p hp) hgives with ⟨-, hattribute⟩ | ⟨-, rfl⟩
  · exact hattribute.owned
  · exact rfl

theorem ReadQuietly.plainWildcards : s.PlainWildcards := by
  intro item hitem owner hwildcard
  obtain ⟨hd, hhd, hitem⟩ := Statement.mem_allItems.1 hitem
  obtain ⟨p, hp, -, -, hgives⟩ := h.exists_element hhd hitem
  rcases gives_of_itemOf (h.quiet p hp) hgives with ⟨-, hattribute⟩ | ⟨-, rfl⟩
  · cases hattribute <;> cases hwildcard
  · rfl

/-- A star is only counted, and only on the root. -/
theorem ReadQuietly.star {hd : Holder} (hhd : hd ∈ s.holders) {item : SelectItem}
    (hitem : item ∈ hd.items) {call : AggregateCall} (hvalue : item.value = .aggregate call)
    (hstar : call.argument = .star) : call.function = .count ∧ hd.owner = none := by
  obtain ⟨p, hp, howner, -, hgives⟩ := h.exists_element hhd hitem
  rcases gives_of_itemOf (h.quiet p hp) hgives with ⟨-, hattribute⟩ | ⟨-, rfl⟩
  · cases hattribute with
    | column hname haggregate => cases hvalue
    | aggregate hname haggregate hfunction halias =>
      cases hvalue
      obtain ⟨rfl, hroot, -⟩ := readArgument_eq_star hstar
      cases hfunction
      exact ⟨rfl, howner ▸ hroot⟩
  · cases hvalue

/-- The entity of an element is an entity of the statement. -/
theorem ReadQuietly.refers_of_mem {p : Owner × Element} (hp : p ∈ entityContents entity)
    (name : String) : s.Refers ⟨p.1.qualifier, name⟩ := by
  rcases owner_of_mem_contents _ _ p hp with howner | ⟨j, hj, howner⟩
  · rw [howner]
    exact .inl rfl
  · rw [howner]
    exact .inr ⟨j, h.joins_eq ▸ hj, rfl⟩

/-- A grouping column comes from an attribute that selects it. -/
theorem ReadQuietly.exists_of_groupBy {c : ColumnRef} (hc : c ∈ s.groupBy) :
    ∃ p ∈ entityContents entity, p.1.qualifier = c.qualifier ∧
      ∃ item, itemOf? p.1 p.2 = some item ∧ item.value = .column c := by
  rw [h.groupBy_eq, mem_insertColumns] at hc
  obtain ⟨p, hp, hgroup⟩ := List.mem_filterMap.1 (hc.resolve_left (by simp))
  rw [groupOf?] at hgroup
  split at hgroup
  · next hattribute =>
    obtain ⟨hname, haggregate, -⟩ := hattribute
    obtain ⟨item, hitem, hgives⟩ := attributeGives_of_quiet hname (h.quiet p hp)
    cases hgives with
    | column hattr =>
      rw [hattr, Option.map_some, Option.some_inj] at hgroup
      subst hgroup
      exact ⟨p, hp, rfl, _, hitem, rfl⟩
    | aggregate _ hsome =>
      rw [haggregate] at hsome
      cases hsome
  · cases hgroup

theorem ReadQuietly.exists_item_of_groupBy {c : ColumnRef} (hc : c ∈ s.groupBy) :
    ∃ item ∈ s.allItems, item.value = .column c := by
  obtain ⟨p, hp, -, item, hitem, hvalue⟩ := h.exists_of_groupBy hc
  obtain ⟨hd, hhd, -, -, hmem⟩ := (h.holder_iff _ _ item).2 ⟨p, hp, rfl, rfl, hitem⟩
  exact ⟨item, Statement.mem_allItems.2 ⟨hd, hhd, hmem⟩, hvalue⟩

theorem ReadQuietly.unselectedNames_eq_nil : s.unselectedNames = [] := by
  rw [Statement.unselectedNames, List.map_eq_nil_iff, List.filter_eq_nil_iff]
  intro c hc
  obtain ⟨item, hitem, hvalue⟩ := h.exists_item_of_groupBy hc
  have hselects : item.selects c = true := SelectItem.selects_iff.2 hvalue
  have hany : (s.allItems.any fun item => item.selects c) = true :=
    List.any_eq_true.2 ⟨item, hitem, hselects⟩
  rw [hany]
  simp

/-- Every test of the condition is the leaf of a condition element. -/
theorem ReadQuietly.exists_leafOf {e : Condition} (he : s.condition = some e)
    {leaf : ColumnRef × Test} (hleaf : leaf ∈ e.tests) : ∃ p, LeafOf entity p leaf := by
  obtain ⟨p, -, hp⟩ := SelectList.exists_of_forall₂ (h.condition_spec.2 e he).1 hleaf
  exact ⟨p, hp⟩

theorem ReadQuietly.refers_of_condition {e : Condition} (he : s.condition = some e) {c : ColumnRef}
    (hc : c ∈ e.columns) : s.Refers c := by
  -- a test is on the column that is meant, and that is of the root or of a link
  obtain ⟨leaf, hleaf, rfl⟩ := List.mem_map.1 hc
  obtain ⟨p, -, -, -, hlink⟩ := h.exists_leafOf he hleaf
  cases hq : leaf.1.qualifier with
  | none => exact .inl hq
  | some q =>
    have hmem := hlink q hq
    rw [h.linkQualifiers_eq, List.mem_map] at hmem
    obtain ⟨j, hj, rfl⟩ := hmem
    exact .inr ⟨j, hj, hq⟩

theorem ReadQuietly.refers_of_groupBy {c : ColumnRef} (hc : c ∈ s.groupBy) : s.Refers c := by
  obtain ⟨p, hp, howner, -⟩ := h.exists_of_groupBy hc
  have hcolumn := h.refers_of_mem hp c.name
  rwa [howner] at hcolumn

theorem ReadQuietly.refers_of_orderBy {item : OrderItem} (hitem : item ∈ s.orderBy) :
    s.Refers item.column := by
  have horders := retainOrders_quiet (knownOf s) _ (congrArg Reading.warnings h.orderBy_eq)
  rw [h.orderBy_eq] at horders
  obtain ⟨written, -, hcolumn, -⟩ := SelectList.exists_of_forall₂ horders hitem
  exact (h.column?_eq hcolumn).2

/-- A statement that is read without warnings is resolved, as its text spells it. -/
theorem ReadQuietly.resolved : s.spelled.Resolved := by
  have hrefers : ∀ c, s.Refers c → s.spelled.Refers c := by
    intro c hc
    rwa [Statement.Refers, Statement.joins_spelled]
  constructor
  case parent_earlier =>
    rw [Statement.joins_spelled, ← parentsIn_nil_iff, h.joins_eq]
    exact parentsIn_joinsBelow _ _ [] (by simp [rootOwner])
  case root_items =>
    rw [Statement.spelled]
    split
    · intro item hitem
      rw [List.mem_singleton] at hitem
      subst hitem
      exact rfl
    · exact fun item hitem => h.owned s.root_mem_holders hitem
  case join_items =>
    rw [Statement.joins_spelled]
    exact fun j hj item hitem => h.owned (Statement.join_mem_holders hj) hitem
  case condition_columns =>
    rw [Statement.condition_spelled]
    exact fun e he c hc => hrefers c (h.refers_of_condition he hc)
  case groupBy_columns =>
    rw [Statement.groupBy_spelled]
    exact fun c hc => hrefers c (h.refers_of_groupBy hc)
  case orderBy_columns =>
    rw [Statement.orderBy_spelled]
    exact fun item hitem => hrefers item.column (h.refers_of_orderBy hitem)
  case items_ne_nil =>
    rw [Statement.spelled]
    split
    · simp [Statement.allItems]
    · next hne => simpa using hne
  case among_ne_nil =>
    rw [Statement.condition_spelled]
    intro e he leaf hleaf
    obtain ⟨p, column, hstates, -⟩ := h.exists_leafOf he hleaf
    exact hstates.ne_among_nil

end Quiet

end Fetch

end FetchQuery
