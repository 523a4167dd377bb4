import FetchQuery.Proofs.Fetch.QuietStatement
import FetchQuery.Proofs.Fetch.SortStability
import FetchQuery.Proofs.Fetch.WrittenContents

/-!
# What a document is sorted by

An order element names an attribute of an entity, or the alias of an attribute element.
`sortKeys` lists what the order elements of a document stand for.

Aliases are looked up in a document and labels in a statement. In a written document the aliases
are the labels of the result columns (`lookup_entries_written`), so it is sorted by what the
sort keys of the statement mean (`sortKeys_written`). If a document is read without warnings, the
labels of the select items are its aliases, except that a grouped attribute whose alias is its
name gets no label (`ReadQuietly.mem_keptEntries`).
-/

set_option autoImplicit false

namespace FetchQuery.Fetch

open Xml Xml.Node JoinForest

/-! ## The sort keys of a document -/

/-- What a query is sorted by: an attribute of an entity, or the result of a function on it. -/
structure SortTarget where
  owner : Option String
  name : String
  function : Option AggregateFunction
deriving DecidableEq, Repr

/-- The alias of an attribute element of the given entity, with what it stands for. -/
def aliased? (owner : Option String) (e : Element) : Option (String × SortTarget) :=
  if e.name = "attribute" then
    (e.attr? "alias").bind fun label => (e.attr? "name").map fun name =>
      (label, ⟨owner, name, (e.attr? "aggregate").bind AggregateFunction.ofFetch?⟩)
  else none

/-- Whether the alias of an attribute element is a label in SQL: a grouped attribute with its own
name as its alias has none. -/
def keepsAlias (e : Element) : Bool :=
  !(e.attr? "aggregate" == none && e.flag "groupby" && e.attr? "alias" == e.attr? "name")

/-- The aliases in a document. -/
def entries (entity : Element) : List (String × SortTarget) :=
  (entityContents entity).filterMap fun p => aliased? p.1.qualifier p.2

/-- The aliases in a document that are labels in SQL. -/
def keptEntries (entity : Element) : List (String × SortTarget) :=
  ((entityContents entity).filter fun p => keepsAlias p.2).filterMap fun p =>
    aliased? p.1.qualifier p.2

/-- The entity that the attribute of an order element belongs to. -/
def orderOwner (entity : Element) (p : Owner × Element) : Option String :=
  meantOwner entity ((p.2.attr? "entityname").or p.1.qualifier)

/-- What an order element sorts by. -/
def sortKey (entity : Element) (p : Owner × Element) : Option SortTarget :=
  match p.2.attr? "attribute" with
  | some name => some ⟨orderOwner entity p, name, none⟩
  | none => (p.2.attr? "alias").bind fun label => (entries entity).lookup label

/-- The order elements of a document with the entities they belong to. -/
def orders (entity : Element) : List (Owner × Element) :=
  (entityContents entity).filter fun p => p.2.name = "order"

/-- What a document is sorted by, and whether from high to low. -/
def sortKeys (entity : Element) : List (Option SortTarget × Bool) :=
  (orders entity).map fun p => (sortKey entity p, p.2.flag "descending")

theorem mem_of_lookup {α : Type} {pairs : List (String × α)} {name : String} {a : α}
    (h : pairs.lookup name = some a) : (name, a) ∈ pairs := by
  obtain ⟨before, behind, rfl, -⟩ := List.lookup_eq_some_iff.1 h
  simp

theorem lookup_eq_some_iff_mem {α : Type} {pairs : List (String × α)} {name : String}
    (hunique : ∀ a b, (name, a) ∈ pairs → (name, b) ∈ pairs → a = b) {a : α} :
    pairs.lookup name = some a ↔ (name, a) ∈ pairs := by
  constructor
  · exact mem_of_lookup
  · intro ha
    cases hlookup : pairs.lookup name with
    | some b => rw [hunique a b ha (mem_of_lookup hlookup)]
    | none =>
      have hne := List.lookup_eq_none_iff.1 hlookup _ ha
      simp at hne

theorem mem_entries_of_kept {entity : Element} {pair : String × SortTarget}
    (h : pair ∈ keptEntries entity) : pair ∈ entries entity := by
  obtain ⟨p, hp, hentry⟩ := List.mem_filterMap.1 h
  exact List.mem_filterMap.2 ⟨p, (List.mem_filter.1 hp).1, hentry⟩

/-- If a function is defined just on the members that are filtered, its values correspond to
them. -/
theorem forall₂_filter_filterMap {α β : Type} {p : α → Bool} {f : α → Option β} {as : List α}
    (h : ∀ a ∈ as, (f a).isSome = p a) :
    List.Forall₂ (fun a b => f a = some b) (as.filter p) (as.filterMap f) := by
  induction as with
  | nil => exact .nil
  | cons a as ih =>
    have hrest := ih fun b hb => h b (List.mem_cons_of_mem a hb)
    have ha := h a List.mem_cons_self
    cases hf : f a with
    | none =>
      rw [hf] at ha
      rwa [List.filter_cons_of_neg (by simp [← ha]), List.filterMap_cons_none hf]
    | some b =>
      rw [hf] at ha
      rw [List.filter_cons_of_pos ha.symm, List.filterMap_cons_some hf]
      exact .cons hf hrest

/-! ## The labels of a statement -/

/-- An item of an entity shows an attribute of it. -/
structure Shown (s : Statement) (h : Holder) (item : SelectItem) (target : SortTarget) : Prop where
  holder : h ∈ s.holders
  item_mem : item ∈ h.items
  shown : shownBy? h.entity item.value = some (target.name, target.function)
  owner : h.owner = target.owner

theorem Shown.mem_allItems {s : Statement} {h : Holder} {item : SelectItem} {target : SortTarget}
    (hshown : Shown s h item target) : item ∈ s.allItems :=
  Statement.mem_allItems.2 ⟨h, hshown.holder, hshown.item_mem⟩

/-- A result column has a label. -/
def Labels (s : Statement) (label : String) (target : SortTarget) : Prop :=
  ∃ h item, Shown s h item target ∧ item.resultLabel? s.isAggregate h.entity = some label

/-- A select item has a label of its own. -/
def LabelsItem (s : Statement) (label : String) (target : SortTarget) : Prop :=
  ∃ h item, Shown s h item target ∧ item.label = some label

theorem LabelsItem.labels {s : Statement} {label : String} {target : SortTarget}
    (h : LabelsItem s label target) : Labels s label target := by
  obtain ⟨hd, item, hshown, hlabel⟩ := h
  refine ⟨hd, item, hshown, ?_⟩
  simp [SelectItem.resultLabel?, hlabel]

/-- No two result columns have one label. -/
theorem Labels.unique {s : Statement} (hs : s.Writable) {label : String} {a b : SortTarget}
    (ha : Labels s label a) (hb : Labels s label b) : a = b := by
  obtain ⟨h, item, hshown, hlabel⟩ := ha
  obtain ⟨h', item', hshown', hlabel'⟩ := hb
  have hnodup : ((s.holders.flatMap fun h => h.items.map fun item => (h, item)).filterMap
      fun p => p.2.resultLabel? s.isAggregate p.1.entity).Nodup := by
    have hlabels := List.Nodup.of_map _ hs.labels_distinct
    rw [Statement.resultLabels_eq] at hlabels
    simpa only [List.filterMap_flatMap, List.filterMap_map, Function.comp_def] using hlabels
  -- an item is known by its label, together with the entity that holds it
  have hpair : (h, item) = (h', item') := by
    refine eq_of_nodup_filterMap hnodup ?_ ?_ hlabel hlabel'
    · exact List.mem_flatMap.2 ⟨h, hshown.holder, List.mem_map_of_mem hshown.item_mem⟩
    · exact List.mem_flatMap.2 ⟨h', hshown'.holder, List.mem_map_of_mem hshown'.item_mem⟩
  cases hpair
  obtain ⟨owner, name, function⟩ := a
  obtain ⟨owner', name', function'⟩ := b
  have hvalue := hshown.shown.symm.trans hshown'.shown
  cases hvalue
  have howner : owner = owner' := hshown.owner.symm.trans hshown'.owner
  rw [howner]

/-! ## The sort keys of a written document -/

/-- The element of an item has the label of its result column as its alias. -/
theorem mem_itemEntry {s : Statement} (hs : s.Writable) {h : Holder} (hh : h ∈ s.holders)
    {item : SelectItem} (hitem : item ∈ h.items) {label : String} {target : SortTarget} :
    (label, target) ∈ (elements 0 0 [itemNode s h.entity item]).flatMap
        (fun x => (aliased? h.owner x).toList) ↔
      item.resultLabel? s.isAggregate h.entity = some label ∧
        shownBy? h.entity item.value = some (target.name, target.function) ∧
        h.owner = target.owner := by
  obtain ⟨owner, name, function⟩ := target
  obtain ⟨x, hx, ⟨hname, hshown, -⟩ | ⟨hname, halias, name', function', hshown, hattr, hfetch⟩⟩ :=
    exists_itemElement hs hh hitem
  · simp [hx, aliased?, hname, hshown]
  · have hfunction : (x.attr? "aggregate").bind AggregateFunction.ofFetch? = function' := by
      rw [hfetch]
      cases function' <;> simp [AggregateFunction.ofFetch?_fetch]
    rw [hx, List.flatMap_singleton, Option.mem_toList, aliased?, if_pos hname, halias, hattr,
      hfunction, hshown]
    cases item.resultLabel? s.isAggregate h.entity <;> simp [and_comm, and_left_comm]

section Written

variable {s : Statement} {indent : Nat} {entity : Element}

/-- The entities that columns refer to are links of the written document. -/
theorem meantOwner_written (hs : s.Writable) (hentity : IsEntityOf s indent entity) {c : ColumnRef}
    (hc : s.Refers c) : meantOwner entity c.qualifier = c.qualifier := by
  rcases hc with hroot | ⟨j, hj, hjoin⟩
  · rw [hroot]
    rfl
  · have hmem : j.qualifier ∈ linkQualifiers entity := by
      rw [linkQualifiers_written hentity]
      exact List.mem_map_of_mem ((preorder_perm hs.isForest).mem_iff.2 hj)
    rw [meantOwner, hjoin, Option.filter_some, List.contains_iff_mem.2 hmem]
    rfl

/-- What a written order element sorts by. -/
def keyMeaning (entity : Element) : SortKey → Option SortTarget
  | .column owner name => some ⟨meantOwner entity owner, name, none⟩
  | .label name => (entries entity).lookup name

/-- A written document is sorted by what the sort keys of its statement mean. -/
theorem sortKeys_written (hentity : IsEntityOf s indent entity) :
    sortKeys entity = s.orderBy.map fun item =>
      (keyMeaning entity (SortKey.ofOrder s item), item.direction == .descending) := by
  -- of the entity that an order element belongs to only the qualifier matters
  let f (q : Option String) (x : Element) : List (Option SortTarget × Bool) :=
    if x.name = "order" then [(sortKey entity (⟨q, "", .inner⟩, x), x.flag "descending")] else []
  have hother : ∀ q x, x.name ≠ "order" → f q x = [] := fun q x hx => if_neg hx
  have hcollect : sortKeys entity =
      (entityContents entity).flatMap fun p => f p.1.qualifier p.2 := by
    rw [sortKeys, orders, ← List.filterMap_eq_map, List.filterMap_filter,
      List.filterMap_eq_flatMap_toList]
    apply List.flatMap_congr
    intro p _
    by_cases hname : p.2.name = "order"
    · simp only [hname, f]
      rfl
    · simp [hname, f]
  rw [hcollect, flatMap_orders hother hentity, orderElements,
    flatMap_elements_map, List.map_eq_flatMap]
  apply List.flatMap_congr
  intro item _
  rw [orderNode, elements_leaf, List.flatMap_singleton]
  obtain ⟨column, direction⟩ := item
  have htrue : Text.sameName "true" "true" = true := by decide
  have hfalse : Text.sameName "false" "true" = false := by decide
  rcases SortKey.ofOrder s ⟨column, direction⟩ with ⟨_ | owner, name⟩ | name <;> cases direction <;>
    simp [f, sortKey, orderOwner, keyMeaning, SortKey.attributes, Element.attr?, Element.flag,
      htrue, hfalse]

variable (hs : s.Writable)
  (hselected : ∀ c ∈ s.groupBy, ∃ item ∈ s.allItems, item.value = .column c)
  (hentity : IsEntityOf s indent entity)

include hs hselected hentity

/-- The aliases of a written document are the labels of the statement. -/
theorem lookup_entries_written (label : String) (target : SortTarget) :
    (entries entity).lookup label = some target ↔ Labels s label target := by
  have hunselected : ∀ owner, unselectedColumns s owner = [] := by
    intro owner
    rw [List.eq_nil_iff_forall_not_mem]
    intro c hc
    obtain ⟨hgrouped, -, hfree⟩ := mem_unselectedColumns.1 hc
    obtain ⟨item, hitem, hvalue⟩ := hselected c hgrouped
    exact hfree item hitem hvalue
  have hother : ∀ q x, x.name ≠ "attribute" → (fun q x => (aliased? q x).toList) q x = [] := by
    intro q x hx
    simp [aliased?, hx]
  have hmem : ∀ target, (label, target) ∈ entries entity ↔ Labels s label target := by
    intro target
    rw [entries, List.filterMap_eq_flatMap_toList, flatMap_attributes hother hentity,
      List.mem_flatMap]
    simp only [(writtenHolders_perm hs.toWellBound).mem_iff, attributeElements, attributeNodes,
      hunselected, List.map_nil, List.append_nil, flatMap_elements_map]
    simp only [List.mem_flatMap (b := (label, target)) (l := Holder.items _)]
    constructor
    · rintro ⟨h, hh, item, hitem, hentry⟩
      obtain ⟨hlabel, hshown, howner⟩ := (mem_itemEntry hs hh hitem).1 hentry
      exact ⟨h, item, ⟨hh, hitem, hshown, howner⟩, hlabel⟩
    · rintro ⟨h, item, hshown, hlabel⟩
      exact ⟨h, hshown.holder, item, hshown.item_mem,
        (mem_itemEntry hs hshown.holder hshown.item_mem).2 ⟨hlabel, hshown.shown, hshown.owner⟩⟩
  rw [lookup_eq_some_iff_mem, hmem]
  intro a b ha hb
  exact ((hmem a).1 ha).unique hs ((hmem b).1 hb)

/-- A column that is no label is sorted by as itself. -/
theorem keyMeaning_ofColumn {c : ColumnRef} (hc : s.Refers c) :
    keyMeaning entity (SortKey.ofColumn s c) = some ⟨c.qualifier, c.name, none⟩ := by
  by_cases hgrouped : s.isAggregate = true ∧ c ∈ s.groupBy
  · -- a grouped column is addressed by the label of the item that selects it
    obtain ⟨item, hfind⟩ : ∃ item, s.allItems.find? (fun item => item.selects c) = some item := by
      obtain ⟨item, hitem, hvalue⟩ := hselected c hgrouped.2
      rw [← Option.isSome_iff_exists, List.find?_isSome]
      exact ⟨item, hitem, SelectItem.selects_iff.2 hvalue⟩
    have hselects : item.selects c = true :=
      List.find?_some (p := fun item : SelectItem => item.selects c) hfind
    have hvalue := SelectItem.selects_iff.1 hselects
    obtain ⟨h, hh, hitem⟩ := Statement.mem_allItems.1 (List.mem_of_find?_eq_some hfind)
    have howned := hs.owned hh hitem
    rw [hvalue] at howned
    rw [SortKey.ofColumn, if_pos (by simpa using hgrouped), hfind]
    refine (lookup_entries_written hs hselected hentity _ _).2
      ⟨h, item, ⟨hh, hitem, by rw [hvalue]; rfl, howned.symm⟩, ?_⟩
    obtain ⟨value, label⟩ := item
    subst hvalue
    cases label <;> simp [SelectItem.resultLabel?, hgrouped.1]
  · rw [SortKey.ofColumn_of_plain hgrouped, keyMeaning, meantOwner_written hs hentity hc]

/-- A label is sorted by as what it labels. -/
theorem keyMeaning_of_labels {name : String} {target : SortTarget}
    (h : LabelsItem s name target) (direction : Direction) :
    keyMeaning entity (SortKey.ofOrder s ⟨⟨none, name⟩, direction⟩) = some target := by
  have hlookup := (lookup_entries_written hs hselected hentity _ _).2 h.labels
  obtain ⟨hd, item, hshown, hlabel⟩ := h
  rw [SortKey.ofOrder_of_labelled (hs.labelled?_eq hshown.mem_allItems hlabel)]
  obtain ⟨value, label⟩ := item
  cases value with
  | aggregate call => exact hlookup
  | wildcard owner => cases hshown.shown
  | column c =>
    -- aggregate queries sort by the label itself
    cases haggregate : s.isAggregate with
    | true => exact hlookup
    | false =>
      -- the label is followed to its column
      obtain ⟨owner, name, function⟩ := target
      obtain ⟨hh, hitem, hvalue, rfl⟩ := hshown
      cases hvalue
      have howned : c.qualifier = hd.owner := hs.owned hh hitem
      have hkey : SortKey.ofLabelled false name ⟨.column c, label⟩ = .column c.qualifier c.name :=
        rfl
      rw [hkey, keyMeaning, meantOwner_written hs hentity (.of_holder hh howned), howned]

end Written

/-! ## The aliases of a document that is read without warnings -/

/-- What an attribute element gives shows the attribute, and has the alias as its label if that is
kept. -/
theorem AttributeGives.entry {owner : Owner} {e : Element} {item : SelectItem}
    (hgives : AttributeGives owner e item) (hname : e.name = "attribute") :
    ∃ name function, shownBy? owner.entity item.value = some (name, function) ∧
      aliased? owner.qualifier e =
        (e.attr? "alias").map (fun label => (label, ⟨owner.qualifier, name, function⟩)) ∧
      item.label = if keepsAlias e then e.attr? "alias" else none := by
  cases hgives with
  | @column name hattr haggregate =>
    refine ⟨name, none, rfl, ?_, ?_⟩
    · rw [aliased?, if_pos hname, hattr, haggregate]
      cases e.attr? "alias" <;> rfl
    · rw [keepsAlias, hattr, haggregate]
      cases e.flag "groupby" <;> cases halias : e.attr? "alias" <;> simp [Option.filter]
  | @aggregate name function label f hattr haggregate hfunction halias =>
    have hargument : AggregateCall.attributeName
        ⟨f, readArgument owner function name, e.flag "distinct"⟩ owner.entity = name := by
      rw [AggregateCall.attributeName]
      cases hargument : readArgument owner function name with
      | star => exact (readArgument_eq_star hargument).2.2.symm
      | column c =>
        rw [readArgument] at hargument
        split at hargument <;> cases hargument
        rfl
    refine ⟨name, some f, by rw [shownBy?, hargument], ?_, ?_⟩
    · rw [aliased?, if_pos hname, hattr, haggregate, halias]
      simp [hfunction]
    · simp [keepsAlias, haggregate, halias]

/-- An alias that is not kept is that of a grouping column, which gets no label. -/
theorem AttributeGives.of_not_keepsAlias {owner : Owner} {e : Element} {item : SelectItem}
    (hgives : AttributeGives owner e item) (hname : e.name = "attribute")
    (hkeeps : ¬keepsAlias e = true) :
    ∃ name, item.value = .column ⟨owner.qualifier, name⟩ ∧ item.label = none ∧
      e.attr? "alias" = some name ∧ groupOf? owner e = some ⟨owner.qualifier, name⟩ := by
  obtain ⟨-, -, -, -, hlabel⟩ := hgives.entry hname
  rw [if_neg hkeeps] at hlabel
  simp only [keepsAlias, Bool.not_eq_true, Bool.not_eq_false', Bool.and_eq_true, beq_iff_eq]
    at hkeeps
  obtain ⟨⟨haggregate, hgroup⟩, hsame⟩ := hkeeps
  cases hgives with
  | aggregate _ hsome =>
    rw [haggregate] at hsome
    cases hsome
  | @column name hattr =>
    refine ⟨name, rfl, hlabel, hsame.trans hattr, ?_⟩
    rw [groupOf?, if_pos ⟨hname, haggregate, hgroup⟩, hattr]
    rfl

section Quiet

variable {entity : Element} {s : Statement} (h : ReadQuietly entity s)

include h

/-- The aliases of a document are labels of the statement, and those that are kept are labels of
select items. -/
theorem ReadQuietly.labels_of_aliased {p : Owner × Element} (hp : p ∈ entityContents entity)
    {label : String} {target : SortTarget}
    (hentry : aliased? p.1.qualifier p.2 = some (label, target)) :
    Labels s label target ∧ (keepsAlias p.2 = true → LabelsItem s label target) := by
  have hname : p.2.name = "attribute" := by
    by_contra hname
    rw [aliased?, if_neg hname] at hentry
    cases hentry
  obtain ⟨item, hitem, hgives⟩ := attributeGives_of_quiet hname (h.quiet p hp)
  obtain ⟨hd, hhd, howner, hentity, hmem⟩ := (h.holder_iff _ _ item).2 ⟨p, hp, rfl, rfl, hitem⟩
  obtain ⟨name, function, hshown, hentry', hlabel⟩ := hgives.entry hname
  rw [hentry', Option.map_eq_some_iff] at hentry
  obtain ⟨label, halias, hpair⟩ := hentry
  cases hpair
  have hshows : Shown s hd item ⟨p.1.qualifier, name, function⟩ :=
    ⟨hhd, hmem, by rw [hentity, hshown], howner⟩
  have hkept : keepsAlias p.2 = true → LabelsItem s label ⟨p.1.qualifier, name, function⟩ := by
    intro hkeeps
    rw [if_pos hkeeps, halias] at hlabel
    exact ⟨hd, item, hshows, hlabel⟩
  refine ⟨?_, hkept⟩
  by_cases hkeeps : keepsAlias p.2 = true
  · exact (hkept hkeeps).labels
  · -- a grouped column without a label is addressed by its name
    refine ⟨hd, item, hshows, ?_⟩
    obtain ⟨name', hvalue, hnone, halias', hgroup⟩ := hgives.of_not_keepsAlias hname hkeeps
    obtain rfl : label = name' := Option.some_inj.1 (halias.symm.trans halias')
    have hgrouped : (⟨p.1.qualifier, label⟩ : ColumnRef) ∈ s.groupBy := by
      rw [h.groupBy_eq, mem_insertColumns]
      exact .inr (List.mem_filterMap.2 ⟨p, hp, hgroup⟩)
    have haggregate := s.isAggregate_iff.2 (.inl ⟨_, hgrouped⟩)
    rw [SelectItem.resultLabel?, hnone, hvalue, haggregate]
    rfl

/-- The aliases that are kept are the labels of the select items. -/
theorem ReadQuietly.mem_keptEntries {label : String} {target : SortTarget} :
    (label, target) ∈ keptEntries entity ↔ LabelsItem s label target := by
  rw [keptEntries, List.mem_filterMap]
  constructor
  · rintro ⟨p, hp, hentry⟩
    obtain ⟨hp, hkeeps⟩ := List.mem_filter.1 hp
    exact (h.labels_of_aliased hp hentry).2 hkeeps
  · rintro ⟨hd, item, hshown, hlabel⟩
    obtain ⟨p, hp, howner, hentity, hitem⟩ := h.exists_element hshown.holder hshown.item_mem
    rcases gives_of_itemOf (h.quiet p hp) hitem with ⟨hname, hgives⟩ | ⟨-, rfl⟩
    · obtain ⟨name, function, hshown', hentry, hlabel'⟩ := hgives.entry hname
      obtain ⟨owner, name', function'⟩ := target
      have hvalue := hshown.shown
      rw [← hentity, hshown'] at hvalue
      cases hvalue
      obtain rfl : p.1.qualifier = owner := howner.trans hshown.owner
      rw [hlabel] at hlabel'
      split at hlabel'
      · next hkeeps =>
        exact ⟨p, List.mem_filter.2 ⟨hp, hkeeps⟩, by rw [hentry, ← hlabel']; rfl⟩
      · cases hlabel'
    · -- a star shows no single attribute
      cases hshown.shown

theorem ReadQuietly.labels_of_mem_entries {label : String} {target : SortTarget}
    (hmem : (label, target) ∈ entries entity) : Labels s label target := by
  obtain ⟨p, hp, hentry⟩ := List.mem_filterMap.1 hmem
  exact (h.labels_of_aliased hp hentry).1

end Quiet

/-! ## The sort columns of a document that is read without warnings -/

/-- A sort column as it is read from an order element: of an attribute, on the entity it belongs
to, or of an alias, as a plain name. -/
structure OrderRead (entity : Element) (s : Statement) (p : Owner × Element) (item : OrderItem) :
    Prop where
  direction : item.direction = if p.2.flag "descending" then .descending else .ascending
  refers : s.Refers item.column
  column :
    p.2.attr? "attribute" = some item.column.name ∧ item.column.qualifier = orderOwner entity p ∨
      p.2.attr? "attribute" = none ∧ p.2.attr? "alias" = some item.column.name ∧
        item.column.qualifier = none

/-- The order elements of a document are the sort columns of the statement. -/
theorem ReadQuietly.orders_read {entity : Element} {s : Statement} (h : ReadQuietly entity s) :
    List.Forall₂ (OrderRead entity s) (orders entity) s.orderBy := by
  have hread : List.Forall₂ (fun p item => orderOf? p.1 p.2 = some item) (orders entity)
      ((entityContents entity).filterMap fun p => orderOf? p.1 p.2) := by
    apply forall₂_filter_filterMap
    intro p hp
    have hquiet := h.quiet p hp
    rw [orderOf?]
    by_cases hname : p.2.name = "order"
    · rw [warningsOf, hname] at hquiet
      cases hread : readOrder p.1.qualifier p.2 <;>
        simp [hread, hname, Except.toOption] at hquiet ⊢
    · simp [hname]
  -- every order element gives a column, and every column is retained where it is meant
  have hkept := retainOrders_quiet (knownOf s) _ (congrArg Reading.warnings h.orderBy_eq)
  rw [h.orderBy_eq] at hkept
  refine (forall₂_comp hread hkept).imp ?_
  rintro p item ⟨written, hwritten, hcolumn, hdirection⟩
  obtain ⟨hmeant, hrefers⟩ := h.column?_eq hcolumn
  rw [orderOf?] at hwritten
  split at hwritten
  · rw [readOrder] at hwritten
    cases hattribute : p.2.attr? "attribute" with
    | some name =>
      simp only [hattribute, Except.toOption, Option.some.injEq] at hwritten
      subst hwritten
      refine ⟨hdirection, hrefers, .inl ⟨hattribute.trans ?_, ?_⟩⟩ <;> rw [hmeant]
      rfl
    | none =>
      cases halias : p.2.attr? "alias" with
      | some label =>
        simp only [hattribute, halias, Except.toOption, Option.some.injEq] at hwritten
        subst hwritten
        refine ⟨hdirection, hrefers, .inr ⟨hattribute, halias.trans ?_, ?_⟩⟩ <;> rw [hmeant]
        rfl
      | none => simp [hattribute, halias, Except.toOption] at hwritten
  · cases hwritten

end FetchQuery.Fetch
