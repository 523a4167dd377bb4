import FetchQuery.Proofs.Fetch.Reparsing
import Mathlib.Data.List.Pairwise

/-!
# Sort keys that come back

Attributes of the root and labels of result columns come back as plain names, and a plain name
is a label first. So an attribute of the root comes back as a label if an item is read with
that label, and a label comes back as an attribute of the root if no item is read with it. A
sort key that is not affected by this is stable (`SortKey.Stable`), and it comes back exactly
if it is (`ofOrder_returned_iff`).
-/

set_option autoImplicit false

namespace FetchQuery

/-- The label that an item is read with when it comes back. -/
def SelectItem.keptLabel? (aggregate : Bool) (entity : String) (item : SelectItem) :
    Option String :=
  match item.value with
  | .wildcard _ => none
  | .column c => if aggregate then item.label.filter (· != c.name) else item.label
  | .aggregate call => some (item.label.getD (call.defaultLabel entity))

/-- The labels that come back. -/
def Statement.keptLabels (s : Statement) : List String :=
  s.holders.flatMap fun h => h.items.filterMap (SelectItem.keptLabel? s.isAggregate h.entity)

theorem eq_of_nodup_filterMap {α β : Type} {f : α → Option β} {l : List α}
    (h : (l.filterMap f).Nodup) {a b : α} (ha : a ∈ l) (hb : b ∈ l) {x : β} (hfa : f a = some x)
    (hfb : f b = some x) : a = b := by
  rw [List.Nodup, List.pairwise_filterMap] at h
  have hsymm : Std.Symm fun a a' => ∀ x, f a = some x → ∀ y, f a' = some y → x ≠ y :=
    ⟨fun _ _ h x hx y hy hxy => h y hy x hx hxy.symm⟩
  by_contra hne
  exact h.forall ha hb hne x hfa x hfb rfl

/-- Two items with one label are the same item. -/
theorem Statement.Writable.eq_of_label {s : Statement} (hs : s.Writable) {a b : SelectItem}
    (ha : a ∈ s.allItems) (hb : b ∈ s.allItems) {label : String} (hla : a.label = some label)
    (hlb : b.label = some label) : a = b := by
  rw [← Statement.map_fst_ownedItems] at ha hb
  obtain ⟨p, hp, rfl⟩ := List.mem_map.1 ha
  obtain ⟨p', hp', rfl⟩ := List.mem_map.1 hb
  have hresult : ∀ p : SelectItem × Binding, p.1.label = some label →
      p.1.resultLabel? s.isAggregate (s.entityOf p.2) = some label := by
    intro p hlabel
    simp [SelectItem.resultLabel?, hlabel]
  exact congrArg Prod.fst (eq_of_nodup_filterMap (List.Nodup.of_map _ hs.labels_distinct) hp hp'
    (hresult p hla) (hresult p' hlb))

/-- A label finds the item that has it. -/
theorem Statement.Writable.labelled?_eq {s : Statement} (hs : s.Writable) {item : SelectItem}
    (hitem : item ∈ s.allItems) {label : String} (hlabel : item.label = some label) :
    s.labelled? label = some item := by
  obtain ⟨found, hfound⟩ : ∃ found, s.labelled? label = some found := by
    rw [← Option.isSome_iff_exists, labelled?, List.find?_isSome]
    exact ⟨item, hitem, by simp [hlabel]⟩
  have hfoundLabel : found.label = some label := by
    simpa using List.find?_some hfound
  rw [hfound, hs.eq_of_label (List.mem_of_find?_eq_some hfound) hitem hfoundLabel hlabel]

namespace Fetch

namespace SortKey

/-- A sort key that comes back as itself: an attribute of the root that no label hides, unless
the label is that of the attribute itself, and a label that comes back, or that is the name of a
grouping column of the root. -/
def Stable (s : Statement) : SortKey → Prop
  | .column (some _) _ => True
  | .column none name => name ∈ s.keptLabels →
    s.isAggregate = false ∧ (⟨.column ⟨none, name⟩, some name⟩ : SelectItem) ∈ s.items
  | .label name => name ∉ s.keptLabels → ⟨none, name⟩ ∈ s.groupBy ∧
    ((s.items.find? fun item => item.selects ⟨none, name⟩).bind SelectItem.label).getD name = name

instance (s : Statement) : (key : SortKey) → Decidable (key.Stable s)
  | .column (some _) _ => inferInstanceAs (Decidable True)
  | .column none name => inferInstanceAs (Decidable (name ∈ s.keptLabels →
    s.isAggregate = false ∧ (⟨.column ⟨none, name⟩, some name⟩ : SelectItem) ∈ s.items))
  | .label name => inferInstanceAs (Decidable (name ∉ s.keptLabels → ⟨none, name⟩ ∈ s.groupBy ∧
    ((s.items.find? fun item => item.selects ⟨none, name⟩).bind SelectItem.label).getD name =
      name))

theorem ofOrder_of_labelled {s : Statement} {name : String} {selected : SelectItem}
    (h : s.labelled? name = some selected) (direction : Direction) :
    ofOrder s ⟨⟨none, name⟩, direction⟩ = ofLabelled s.isAggregate name selected := by
  simp only [ofOrder, h]

theorem ofOrder_of_unlabelled {s : Statement} {c : ColumnRef}
    (h : c.qualifier = none → s.labelled? c.name = none) (direction : Direction) :
    ofOrder s ⟨c, direction⟩ = ofColumn s c := by
  rw [ofOrder]
  split
  · next hqualifier hlabelled =>
    rw [h hqualifier] at hlabelled
    cases hlabelled
  · rfl

theorem ofColumn_of_plain {s : Statement} {c : ColumnRef}
    (h : ¬(s.isAggregate = true ∧ c ∈ s.groupBy)) : ofColumn s c = .column c.qualifier c.name := by
  rw [ofColumn, if_neg]
  simpa using h

/-- An attribute is sorted by only if it is no grouping column. -/
theorem not_grouped_of_ofOrder {s : Statement} {item : OrderItem} {owner : Option String}
    {name : String} (h : ofOrder s item = .column owner name) :
    ¬(s.isAggregate = true ∧ ⟨owner, name⟩ ∈ s.groupBy) := by
  have hcolumn : ofColumn s item.column = .column owner name →
      ¬(s.isAggregate = true ∧ ⟨owner, name⟩ ∈ s.groupBy) := by
    intro hcolumn
    rw [ofColumn] at hcolumn
    split at hcolumn
    · cases hcolumn
    · next hplain =>
      cases hcolumn
      simpa using hplain
  rw [ofOrder] at h
  split at h
  · rw [ofLabelled] at h
    split at h
    · split at h
      · cases h
      · next haggregate => exact fun hboth => haggregate hboth.1
    · cases h
  · exact hcolumn h

/-- Only aggregate queries are sorted by a label. -/
theorem isAggregate_of_ofOrder {s : Statement} (hs : s.Legible) {item : OrderItem} {name : String}
    (h : ofOrder s item = .label name) : s.isAggregate = true := by
  rw [ofOrder] at h
  split at h
  · next selected _ hselected =>
    have hmem : selected ∈ s.allItems := List.mem_of_find?_eq_some hselected
    have hlabel : selected.label = some item.column.name := by
      simpa using List.find?_some hselected
    rw [ofLabelled] at h
    split at h
    · split at h
      · assumption
      · cases h
    · next hvalue =>
      obtain ⟨c | call | owner, label⟩ := selected
      · exact absurd rfl (hvalue c)
      · exact s.isAggregate_iff.2 (Or.inr ⟨_, hmem, rfl⟩)
      · rw [hs.wildcard_unlabelled _ hmem owner rfl] at hlabel
        cases hlabel
  · rw [ofColumn] at h
    split at h
    · next hgrouped => exact (Bool.and_eq_true_iff.1 hgrouped).1
    · cases h

end SortKey

theorem label_returnedItem (s : Statement) (owner : Option String) (entity : String)
    (item : SelectItem) :
    (returnedItem s owner entity item).label = item.keptLabel? s.isAggregate entity := by
  obtain ⟨_ | _ | _, label⟩ := item <;> rfl

theorem selects_returnedItem {s : Statement} {owner : Option String} {entity : String}
    (item : SelectItem) (c : ColumnRef) :
    (returnedItem s owner entity item).selects c = item.selects c := by
  rw [Bool.eq_iff_iff, SelectItem.selects_iff, SelectItem.selects_iff,
    returnedItem_value_eq_column]

section Stable

variable {s : Statement} (hs : s.Writable) {condition : Option Condition}

include hs

theorem labelled?_returned {name : String} :
    (returned s condition).labelled? name = none ↔ name ∉ s.keptLabels := by
  rw [Statement.labelled?, List.find?_eq_none]
  constructor
  · intro hnone hmem
    obtain ⟨h, hh, hmem⟩ := List.mem_flatMap.1 hmem
    obtain ⟨item, hitem, hlabel⟩ := List.mem_filterMap.1 hmem
    refine hnone _ (returnedItem_mem hs.toWellBound condition hh hitem) ?_
    rw [label_returnedItem, hlabel, beq_self_eq_true]
  · intro hkept item hitem hlabel
    rcases kept_or_grouped hs.toWellBound condition hitem with
      ⟨h, hh, kept, hmem, rfl⟩ | ⟨c, -, rfl⟩
    · refine hkept (List.mem_flatMap.2 ⟨h, hh, List.mem_filterMap.2 ⟨kept, hmem, ?_⟩⟩)
      rw [← label_returnedItem]
      exact eq_of_beq hlabel
    · simp at hlabel

/-- A column of the root is written with the label of the first item that selects it. -/
theorem label_of_selected_returned (name : String) :
    (((returned s condition).allItems.find? fun item => item.selects ⟨none, name⟩).bind
        SelectItem.label).getD name =
      ((s.items.find? fun item => item.selects ⟨none, name⟩).bind SelectItem.label).getD name := by
  have hallItems : (returned s condition).allItems =
      s.items.map (returnedItem s none s.source.entity) ++
        ((unselectedColumns s none).map (fun c => ⟨.column c, none⟩) ++
          (returned s condition).joins.flatMap Join.items) := List.append_assoc ..
  rw [hallItems, List.find?_append, List.find?_map]
  simp only [Function.comp_def, selects_returnedItem]
  cases hfound : s.items.find? fun item => item.selects ⟨none, name⟩ with
  | some item =>
    obtain ⟨value, label⟩ := item
    obtain rfl : value = .column ⟨none, name⟩ := by
      simpa [SelectItem.selects_iff] using List.find?_some hfound
    simp only [Option.map_some, Option.some_or, Option.bind_some, label_returnedItem,
      SelectItem.keptLabel?]
    split
    · cases label with
      | none => rfl
      | some l => by_cases hl : l = name <;> simp [Option.filter, hl]
    · rfl
  | none =>
    simp only [Option.map_none, Option.none_or, Option.bind_none, Option.getD_none]
    cases hrest : List.find? (fun item : SelectItem => item.selects ⟨none, name⟩) _ with
    | none => rfl
    | some item =>
      have hvalue : item.value = .column ⟨none, name⟩ := by
        simpa [SelectItem.selects_iff] using List.find?_some hrest
      rcases List.mem_append.1 (List.mem_of_find?_eq_some hrest) with hmem | hmem
      · obtain ⟨c, -, rfl⟩ := List.mem_map.1 hmem
        rfl
      · -- the items of a join belong to it and not to the root
        obtain ⟨j, hj, hitem⟩ := List.mem_flatMap.1 hmem
        obtain ⟨kept, hkept, rfl⟩ := exists_of_mem_joins_returned hs hj
        have howned := owned_returnedItems (hs.join_items kept hkept) item hitem
        rw [hvalue] at howned
        cases howned

/-- What has a label in a query without aggregates comes back as it was. -/
theorem mem_of_labelled?_returned (haggregate : s.isAggregate = false) {name : String}
    {selected : SelectItem} (h : (returned s condition).labelled? name = some selected) :
    selected ∈ s.allItems ∧ selected.label = some name := by
  have hlabel : selected.label = some name := by simpa using List.find?_some h
  refine ⟨?_, hlabel⟩
  rcases kept_or_grouped hs.toWellBound condition (List.mem_of_find?_eq_some h) with
    ⟨holder, hholder, kept, hkept, rfl⟩ | ⟨c, -, rfl⟩
  · have hmem := Statement.mem_allItems.2 ⟨holder, hholder, hkept⟩
    obtain ⟨c | call | owner, label⟩ := kept
    · simpa [returnedItem, haggregate] using hmem
    · rw [s.isAggregate_iff.2 (Or.inr ⟨_, hmem, rfl⟩)] at haggregate
      cases haggregate
    · cases hlabel
  · cases hlabel

theorem mem_items_of_owned {item : SelectItem} (hitem : item ∈ s.allItems) {name : String}
    (hvalue : item.value = .column ⟨none, name⟩) : item ∈ s.items := by
  obtain ⟨h, hh, hitem⟩ := Statement.mem_allItems.1 hitem
  have howned := hs.owned hh hitem
  rw [hvalue] at howned
  obtain rfl := Statement.eq_root_of_owner_eq_none hh howned.symm
  exact hitem

theorem ofColumn_returned_iff {name : String}
    (hplain : ¬(s.isAggregate = true ∧ ⟨none, name⟩ ∈ s.groupBy)) (direction : Direction) :
    SortKey.ofOrder (returned s condition) ⟨⟨none, name⟩, direction⟩ = .column none name ↔
      (SortKey.column none name).Stable s := by
  have hreturned := isAggregate_returned hs.toWellBound condition
  rw [SortKey.Stable]
  cases hlabelled : (returned s condition).labelled? name with
  | none =>
    have hkept := (labelled?_returned hs).1 hlabelled
    refine iff_of_true ?_ fun h => absurd h hkept
    rw [SortKey.ofOrder_of_unlabelled (fun _ => hlabelled), SortKey.ofColumn_of_plain]
    rwa [hreturned, mem_groupBy_returned hs.toWellBound]
  | some selected =>
    have hkept : name ∈ s.keptLabels := by
      by_contra h
      rw [(labelled?_returned hs).2 h] at hlabelled
      cases hlabelled
    rw [SortKey.ofOrder_of_labelled hlabelled, hreturned, SortKey.ofLabelled]
    cases haggregate : s.isAggregate with
    | true =>
      refine iff_of_false ?_ fun h => absurd (h hkept).1 (by simp)
      split <;> simp
    | false =>
      obtain ⟨hmem, hlabel⟩ := mem_of_labelled?_returned hs haggregate hlabelled
      constructor
      · intro hkey _
        obtain ⟨c | call | owner, label⟩ := selected
        · obtain ⟨hqualifier, hname⟩ := SortKey.column.inj hkey
          obtain rfl : c = ⟨none, name⟩ := by rw [← hqualifier, ← hname]
          obtain rfl : label = some name := hlabel
          exact ⟨rfl, mem_items_of_owned hs hmem rfl⟩
        · cases hkey
        · cases hkey
      · intro hstable
        have hself := hs.eq_of_label hmem (List.mem_append_left _ (hstable hkept).2) hlabel rfl
        rw [hself]
        rfl

theorem ofLabel_returned_iff {name : String} (haggregate : s.isAggregate = true) (direction : Direction) :
    SortKey.ofOrder (returned s condition) ⟨⟨none, name⟩, direction⟩ = .label name ↔
      (SortKey.label name).Stable s := by
  have hreturned := isAggregate_returned hs.toWellBound condition
  rw [haggregate] at hreturned
  rw [SortKey.Stable]
  cases hlabelled : (returned s condition).labelled? name with
  | some selected =>
    have hkept : ¬name ∉ s.keptLabels := fun h => by
      rw [(labelled?_returned hs).2 h] at hlabelled
      cases hlabelled
    rw [SortKey.ofOrder_of_labelled hlabelled, hreturned, SortKey.ofLabelled]
    refine iff_of_true ?_ fun h => absurd h hkept
    split <;> rfl
  | none =>
    have hkept := (labelled?_returned hs).1 hlabelled
    rw [SortKey.ofOrder_of_unlabelled (fun _ => hlabelled), SortKey.ofColumn, hreturned,
      label_of_selected_returned hs]
    by_cases hgroup : (⟨none, name⟩ : ColumnRef) ∈ s.groupBy
    · simp [mem_groupBy_returned hs.toWellBound, hgroup, hkept]
    · simp [mem_groupBy_returned hs.toWellBound, hgroup, hkept]

/-- A sort key comes back exactly if it is stable. -/
theorem ofOrder_returned_iff (item : OrderItem) :
    SortKey.ofOrder (returned s condition) (returnedOrder s item) = SortKey.ofOrder s item ↔
      (SortKey.ofOrder s item).Stable s := by
  cases hkey : SortKey.ofOrder s item with
  | label name =>
    rw [returnedOrder, hkey]
    exact ofLabel_returned_iff hs (SortKey.isAggregate_of_ofOrder hs.toLegible hkey) item.direction
  | column owner name =>
    have hplain := SortKey.not_grouped_of_ofOrder hkey
    rw [returnedOrder, hkey]
    cases owner with
    | none => exact ofColumn_returned_iff hs hplain item.direction
    | some q =>
      refine iff_of_true ?_ trivial
      rw [SortKey.asColumn, SortKey.ofOrder_of_unlabelled (by simp), SortKey.ofColumn_of_plain]
      rwa [isAggregate_returned hs.toWellBound, mem_groupBy_returned hs.toWellBound]

end Stable

end Fetch

end FetchQuery
