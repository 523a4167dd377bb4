import FetchQuery.Proofs.Scope
import FetchQuery.Proofs.WellBound
import Mathlib.Data.List.Forall2
import Mathlib.Data.List.Perm.Basic

/-!
# The select list and its owners

What an item resolves to is said without the binder (`SelectValue.BindsTo`), and binding gives just
that (`SelectList.bindItems_eq_ok_iff`).

What `SelectList.bind` checks and hands out, stated on lists: the labels of the result columns
differ (`firstRepeatedLabel?_eq_none_iff`), an aggregate query selects only aggregates and
grouped columns (`firstGroupingFault?_eq_none_iff`), and the owners together hold every item
exactly once (`owned_perm_ownedItems`). Items that are listed owner by owner are handed out as
they were (`distribute_ownedItems`).
-/

set_option autoImplicit false

namespace FetchQuery

/-- A bound item without its position. -/
def BoundItem.owned (b : BoundItem) : SelectItem × Binding :=
  (b.item, b.owner)

theorem Statement.map_fst_ownedItems (s : Statement) :
    s.ownedItems.map Prod.fst = s.allItems := by
  -- the positions start anywhere, for the induction
  have hjoins : ∀ (joins : List Join) (k : Nat),
      ((joins.zipIdx k).flatMap fun p => p.1.items.map (·, Binding.join p.2)).map Prod.fst =
        joins.flatMap Join.items := by
    intro joins
    induction joins with
    | nil => exact fun _ => rfl
    | cons j joins ih =>
      intro k
      rw [List.zipIdx_cons, List.flatMap_cons, List.map_append, ih, List.flatMap_cons,
        List.map_map]
      simp [Function.comp_def]
  rw [ownedItems, List.map_append, hjoins, allItems, List.map_map]
  simp [Function.comp_def]

theorem Statement.root_mem_ownedItems {s : Statement} {item : SelectItem} (h : item ∈ s.items) :
    (item, .root) ∈ s.ownedItems :=
  List.mem_append_left _ (List.mem_map_of_mem h)

theorem Statement.join_mem_ownedItems {s : Statement} {i : Nat} {j : Join}
    (hi : s.joins[i]? = some j) {item : SelectItem} (h : item ∈ j.items) :
    (item, .join i) ∈ s.ownedItems := by
  refine List.mem_append_right _ (List.mem_flatMap.2 ⟨(j, i), ?_, List.mem_map_of_mem h⟩)
  exact List.mem_zipIdx_iff_getElem?.2 hi

/-! ## What an item resolves to -/

/-- The column that an item reads, if it reads one. -/
def SelectValue.column? : SelectValue → Option ColumnRef
  | .column c => some c
  | .wildcard _ => none
  | .aggregate call =>
    match call.argument with
    | .column c => some c
    | .star => none

/-- The qualifier that an item is written with. -/
def SelectValue.qualifier? : SelectValue → Option String
  | .column c => c.qualifier
  | .wildcard q => q
  | .aggregate call =>
    match call.argument with
    | .column c => c.qualifier
    | .star => none

/-- An item with another qualifier. -/
def SelectValue.requalified (q : Option String) : SelectValue → SelectValue
  | .column c => .column ⟨q, c.name⟩
  | .wildcard _ => .wildcard q
  | .aggregate call =>
    match call.argument with
    | .column c => .aggregate { call with argument := .column ⟨q, c.name⟩ }
    | .star => .aggregate call

/-- An item resolves to the entity that its qualifier names. A bare wildcard and a star argument
have none, and are never ambiguous. -/
structure SelectValue.BindsTo (scope : Scope) (value : SelectValue) (owner : Binding) : Prop where
  names : scope.Names value.qualifier? owner
  clear : ∀ c, value.column? = some c → scope.Clear c

theorem SelectValue.BindsTo.has {scope : Scope} {value : SelectValue} {owner : Binding}
    (h : value.BindsTo scope owner) : scope.Has owner :=
  Scope.has_of_resolve (Scope.resolve_eq_ok_iff.2 h.names)

namespace SelectList

theorem resultLabel?_eq (entity : Binding → String) (aggregate : Bool) (b : BoundItem) :
    resultLabel? entity aggregate b = b.item.resultLabel? aggregate (entity b.owner) := by
  obtain ⟨⟨value, label⟩, owner, position⟩ := b
  cases label <;> cases value <;> rfl

/-! ## Binding item by item -/

theorem bindsTo_of_bindValue {scope : Scope} {value bound : SelectValue} {owner : Binding}
    (h : bindValue scope value = .ok (bound, owner)) :
    value.BindsTo scope owner ∧ bound = value.requalified (scope.declared owner) := by
  cases value with
  | column c =>
    rw [bindValue] at h
    cases hc : scope.bind c with
    | error fault => simp [hc] at h
    | ok r =>
      obtain ⟨rfl, rfl⟩ : SelectValue.column r.1 = bound ∧ r.2 = owner := by simpa [hc] using h
      obtain ⟨hclear, hnames, hbound⟩ := Scope.bind_eq_ok_iff.1 hc
      exact ⟨⟨hnames, fun _ h' => Option.some.inj h' ▸ hclear⟩, by rw [hbound]; rfl⟩
  | wildcard q =>
    cases q with
    | none =>
      obtain ⟨rfl, rfl⟩ := Prod.mk.inj (Except.ok.inj h)
      exact ⟨⟨.bare, by simp [SelectValue.column?]⟩, rfl⟩
    | some q =>
      rw [bindValue] at h
      cases hq : scope.resolve (some q) with
      | error fault => simp [hq] at h
      | ok found =>
        obtain ⟨rfl, rfl⟩ : SelectValue.wildcard (scope.declared found) = bound ∧ found = owner := by
          simpa [hq] using h
        exact ⟨⟨Scope.resolve_eq_ok_iff.1 hq, by simp [SelectValue.column?]⟩, rfl⟩
  | aggregate call =>
    rw [bindValue] at h
    cases hargument : call.argument with
    | star =>
      obtain ⟨rfl, rfl⟩ : SelectValue.aggregate call = bound ∧ .root = owner := by
        simpa [hargument] using h
      refine ⟨⟨?_, ?_⟩, ?_⟩
      · simpa [SelectValue.qualifier?, hargument] using Scope.Names.bare
      · simp [SelectValue.column?, hargument]
      · simp [SelectValue.requalified, hargument]
    | column c =>
      cases hc : scope.bind c with
      | error fault => simp [hargument, hc] at h
      | ok r =>
        obtain ⟨rfl, rfl⟩ : SelectValue.aggregate { call with argument := .column r.1 } = bound ∧
            r.2 = owner := by simpa [hargument, hc] using h
        obtain ⟨hclear, hnames, hbound⟩ := Scope.bind_eq_ok_iff.1 hc
        refine ⟨⟨?_, ?_⟩, ?_⟩
        · simpa [SelectValue.qualifier?, hargument] using hnames
        · simpa [SelectValue.column?, hargument] using hclear
        · simp [SelectValue.requalified, hargument, hbound]

theorem bindValue_of_bindsTo {scope : Scope} {value : SelectValue} {owner : Binding}
    (h : value.BindsTo scope owner) :
    bindValue scope value = .ok (value.requalified (scope.declared owner), owner) := by
  obtain ⟨hnames, hclear⟩ := h
  cases value with
  | column c =>
    rw [bindValue, Scope.bind_eq_ok_iff.2 ⟨hclear c rfl, hnames, rfl⟩]
    rfl
  | wildcard q =>
    cases q with
    | none =>
      obtain ⟨⟩ := hnames
      rfl
    | some q =>
      rw [bindValue, (Scope.resolve_eq_ok_iff (q := some q)).2 hnames]
      rfl
  | aggregate call =>
    rw [SelectValue.qualifier?] at hnames
    rw [bindValue, SelectValue.requalified]
    cases hargument : call.argument with
    | star =>
      simp only [hargument] at hnames
      obtain ⟨⟩ := hnames
      rfl
    | column c =>
      simp only [hargument] at hnames
      have hc : scope.Clear c := hclear c (by simp [SelectValue.column?, hargument])
      simp only [Scope.bind_eq_ok_iff.2 ⟨hc, hnames, rfl⟩]

/-- What binding makes of an item: its qualifier is that of its owner, all else is kept. -/
structure BoundFrom (scope : Scope) (p : PendingItem) (b : BoundItem) : Prop where
  binds : p.item.value.BindsTo scope b.owner
  item_eq : b.item = ⟨p.item.value.requalified (scope.declared b.owner), p.item.label⟩
  position_eq : b.position = p.position

theorem bindItems_eq_ok_iff {scope : Scope} {pending : List PendingItem}
    {bound : List BoundItem} :
    bindItems scope pending = .ok bound ↔ List.Forall₂ (BoundFrom scope) pending bound := by
  constructor
  · intro h
    fun_induction bindItems scope pending generalizing bound with
    | case1 =>
      obtain rfl : [] = bound := by simpa using h
      exact .nil
    | case2 => simp at h
    | case3 => simp at h
    | case4 pending rest value owner hvalue bound' hrest ih =>
      obtain rfl := (by simpa using h : _ = bound)
      obtain ⟨hbinds, rfl⟩ := bindsTo_of_bindValue hvalue
      exact .cons ⟨hbinds, rfl, rfl⟩ (ih hrest)
  · intro h
    induction h with
    | nil => rfl
    | @cons p b pending bound hb _ ih =>
      rw [bindItems, bindValue_of_bindsTo hb.binds]
      simp only [ih, ← hb.item_eq, ← hb.position_eq]

/-- What binding makes of an item: its value resolved, its label kept. -/
def Binds (scope : Scope) (pending : PendingItem) (b : SelectItem × Binding) : Prop :=
  bindValue scope pending.item.value = .ok (b.1.value, b.2) ∧ b.1.label = pending.item.label

theorem BoundFrom.owned {scope : Scope} {p : PendingItem} {b : BoundItem}
    (h : BoundFrom scope p b) : Binds scope p b.owned := by
  refine ⟨?_, by rw [BoundItem.owned, h.item_eq]⟩
  rw [bindValue_of_bindsTo h.binds, BoundItem.owned, h.item_eq]

theorem binds_of_bindItems {scope : Scope} {pending : List PendingItem} {bound : List BoundItem}
    (h : bindItems scope pending = .ok bound) :
    List.Forall₂ (Binds scope) pending (bound.map BoundItem.owned) :=
  List.forall₂_map_right_iff.2 ((bindItems_eq_ok_iff.1 h).imp fun _ _ => BoundFrom.owned)

theorem bindItems_of_binds {scope : Scope} {pending : List PendingItem}
    {owned : List (SelectItem × Binding)} (h : List.Forall₂ (Binds scope) pending owned) :
    ∃ bound, bindItems scope pending = .ok bound ∧ bound.map BoundItem.owned = owned := by
  induction h with
  | nil => exact ⟨[], rfl, rfl⟩
  | @cons p o pending owned hp _ ih =>
    obtain ⟨bound, hbound, howned⟩ := ih
    refine ⟨⟨⟨o.1.value, p.item.label⟩, o.2, p.position⟩ :: bound, ?_, ?_⟩
    · rw [bindItems, hp.1]
      simp only [hbound]
    · rw [List.map_cons, howned, BoundItem.owned, ← hp.2]

/-! ## The checks -/

theorem groupingFault?_eq_none_iff {groupBy : List ColumnRef} {b : BoundItem} :
    groupingFault? groupBy b = none ↔
      (∀ owner, b.item.value ≠ .wildcard owner) ∧
        ∀ c, b.item.value = .column c → c ∈ groupBy := by
  rw [groupingFault?]
  cases b.item.value with
  | column c => simp
  | wildcard owner => simp
  | aggregate call => simp

theorem firstGroupingFault?_eq_none_iff {bound : List BoundItem} {groupBy : List ColumnRef} :
    firstGroupingFault? bound groupBy = none ↔
      (aggregates bound groupBy = true → ∀ b ∈ bound,
        (∀ owner, b.item.value ≠ .wildcard owner) ∧
          ∀ c, b.item.value = .column c → c ∈ groupBy) := by
  rw [firstGroupingFault?]
  split
  · next h =>
    rw [List.findSome?_eq_none_iff]
    simp only [h, groupingFault?_eq_none_iff, true_imp_iff]
  · next h => simp [h]

/-- No label is reported exactly when the labels differ from each other and from those seen
before, letter case aside. -/
theorem firstRepeatedLabel?_eq_none_iff {label? : BoundItem → Option String}
    {seen : List String} {bound : List BoundItem} :
    firstRepeatedLabel? label? seen bound = none ↔
      ((bound.filterMap label?).map Text.lower).Nodup ∧
        ∀ label ∈ bound.filterMap label?, Text.lower label ∉ seen := by
  induction bound generalizing seen with
  | nil => simp [firstRepeatedLabel?]
  | cons b bound ih =>
    rw [firstRepeatedLabel?]
    cases hb : label? b with
    | none => simp only [List.filterMap_cons, hb, ih]
    | some label =>
      simp only [List.filterMap_cons, hb, List.map_cons, List.nodup_cons]
      by_cases hseen : seen.contains (Text.lower label) = true
      · rw [if_pos hseen]
        simp only [List.contains_iff_mem] at hseen
        simp [hseen]
      · -- a new label is one of those seen before for the items behind it
        rw [if_neg hseen, ih]
        simp only [List.contains_iff_mem] at hseen
        grind

/-! ## Owners -/

/-- A list is the lists of its elements with each key, put together. -/
theorem perm_flatMap_filter {α κ : Type} [BEq κ] [LawfulBEq κ] (key : α → κ) {keys : List κ}
    (hkeys : keys.Nodup) {l : List α} (hl : ∀ a ∈ l, key a ∈ keys) :
    l.Perm (keys.flatMap fun k => l.filter fun a => key a == k) := by
  induction keys generalizing l with
  | nil =>
    obtain rfl : l = [] := List.eq_nil_iff_forall_not_mem.2 fun a ha => by simpa using hl a ha
    rfl
  | cons k keys ih =>
    rw [List.nodup_cons] at hkeys
    have hrest := ih hkeys.2 (l := l.filter fun a => !(key a == k)) fun a ha => by
      rw [List.mem_filter] at ha
      exact (List.mem_cons.1 (hl a ha.1)).resolve_left (by simpa using ha.2)
    -- leaving out the first key does not change what the other keys pick
    have hsame : (keys.flatMap fun k' =>
        (l.filter fun a => !(key a == k)).filter fun a => key a == k') =
          keys.flatMap fun k' => l.filter fun a => key a == k' := by
      apply List.flatMap_congr
      intro k' hk'
      rw [List.filter_filter]
      apply List.filter_congr
      intro a _
      have hne : k' ≠ k := fun h => hkeys.1 (h ▸ hk')
      by_cases ha : key a = k' <;> simp [ha, hne]
    rw [List.flatMap_cons, ← hsame]
    exact (List.filter_append_perm _ l).symm.trans (hrest.append_left _)

/-- The root and the first `n` joins. -/
def entities (n : Nat) : List Binding :=
  .root :: (List.range' 0 n).map .join

theorem nodup_entities (n : Nat) : (entities n).Nodup := by
  refine List.nodup_cons.2 ⟨by simp, ?_⟩
  exact List.Pairwise.map _ (fun a b hab => by simpa using hab) List.nodup_range'

theorem mem_entities_iff {n : Nat} {owner : Binding} :
    owner ∈ entities n ↔ owner = .root ∨ ∃ i < n, owner = .join i := by
  simp [entities, eq_comm]

theorem itemsOf_eq (owner : Binding) (bound : List BoundItem) :
    itemsOf owner bound = ((bound.map BoundItem.owned).filter (·.2 == owner)).map Prod.fst := by
  rw [itemsOf, List.filter_map, List.map_map]
  rfl

/-- The items of one owner, with the owner put back. -/
theorem map_pair_itemsOf (owner : Binding) (bound : List BoundItem) :
    (itemsOf owner bound).map (·, owner) =
      (bound.map BoundItem.owned).filter (·.2 == owner) := by
  rw [itemsOf_eq, List.map_map]
  conv_rhs => rw [← List.map_id ((bound.map BoundItem.owned).filter (·.2 == owner))]
  apply List.map_congr_left
  intro p hp
  have hsnd : p.2 = owner := by simpa using (List.mem_filter.1 hp).2
  rw [← hsnd]
  rfl

theorem zipIdx_mapIdx {α β : Type} (f : Nat → α → β) (l : List α) :
    (l.mapIdx f).zipIdx = l.zipIdx.map fun p => (f p.2 p.1, p.2) := by
  apply List.ext_getElem?
  intro i
  cases h : l[i]? <;> simp [h]

/-- The owners together hold every item once. -/
theorem owned_perm_ownedItems {s : Statement} {bound : List BoundItem} {joins : List Join}
    (h : distribute bound joins = (s.items, s.joins)) (hjoins : ∀ j ∈ joins, j.items = [])
    (howner : ∀ b ∈ bound, b.owner = .root ∨ ∃ i < joins.length, b.owner = .join i) :
    (bound.map BoundItem.owned).Perm s.ownedItems := by
  obtain ⟨hroot, hrest⟩ := Prod.mk.inj h
  -- the entities are the keys by which the bound items are sorted
  have hkeys : entities joins.length = Binding.root :: joins.zipIdx.map fun p => .join p.2 := by
    rw [entities, ← List.zipIdx_map_snd, List.map_map]
    rfl
  have hmem : ∀ p ∈ bound.map BoundItem.owned, p.2 ∈ entities joins.length := by
    intro p hp
    obtain ⟨b, hb, rfl⟩ := List.mem_map.1 hp
    exact mem_entities_iff.2 (howner b hb)
  have hlist : s.ownedItems = (entities joins.length).flatMap fun k =>
      (bound.map BoundItem.owned).filter fun p => p.2 == k := by
    rw [Statement.ownedItems, ← hroot, ← hrest, zipIdx_mapIdx, List.flatMap_map, hkeys,
      List.flatMap_cons, map_pair_itemsOf, List.flatMap_map]
    congr 1
    apply List.flatMap_congr
    intro p hp
    have hitems := hjoins p.1 (List.fst_mem_of_mem_zipIdx hp)
    rw [hitems, List.nil_append, map_pair_itemsOf]
  rw [hlist]
  exact perm_flatMap_filter Prod.snd (nodup_entities _) hmem

/-- Among items listed join by join, those of one join are its own. -/
theorem filter_zipIdx_items (joins : List Join) (k i : Nat) :
    (((joins.zipIdx k).flatMap fun p => p.1.items.map (·, Binding.join p.2)).filter
      (·.2 == .join (k + i))).map Prod.fst = (joins[i]?.map Join.items).getD [] := by
  induction joins generalizing k i with
  | nil => rfl
  | cons j joins ih =>
    rw [List.zipIdx_cons, List.flatMap_cons, List.filter_append, List.map_append]
    cases i with
    | zero =>
      -- the joins behind the first have greater positions
      have hlater : ((joins.zipIdx (k + 1)).flatMap fun p =>
          p.1.items.map (·, Binding.join p.2)).filter (·.2 == .join k) = [] := by
        rw [List.filter_eq_nil_iff]
        intro p hp
        obtain ⟨q, hq, hp⟩ := List.mem_flatMap.1 hp
        obtain ⟨item, -, rfl⟩ := List.mem_map.1 hp
        have hle := List.le_snd_of_mem_zipIdx hq
        simp
        omega
      rw [Nat.add_zero, hlater]
      simp [List.filter_map, Function.comp_def]
    | succ i =>
      have hi : k + (i + 1) = k + 1 + i := by omega
      have hne : k ≠ k + 1 + i := by omega
      rw [hi, ih (k + 1) i, List.getElem?_cons_succ]
      simp [List.filter_map, Function.comp_def, hne]

/-- Items listed owner by owner are handed to their owners. -/
theorem distribute_ownedItems {s : Statement} {bound : List BoundItem}
    (h : bound.map BoundItem.owned = s.ownedItems) :
    distribute bound (s.joins.map fun j => { j with items := [] }) = (s.items, s.joins) := by
  have hroot : itemsOf .root bound = s.items := by
    rw [itemsOf_eq, h, Statement.ownedItems, List.filter_append, List.map_append]
    have hnone : (s.joins.zipIdx.flatMap fun p => p.1.items.map (·, Binding.join p.2)).filter
        (·.2 == .root) = [] := by
      rw [List.filter_eq_nil_iff]
      intro p hp
      obtain ⟨q, -, hp⟩ := List.mem_flatMap.1 hp
      obtain ⟨item, -, rfl⟩ := List.mem_map.1 hp
      simp
    rw [hnone]
    simp [List.filter_map, Function.comp_def]
  have hjoin : ∀ i, itemsOf (.join i) bound = (s.joins[i]?.map Join.items).getD [] := by
    intro i
    have hzip := filter_zipIdx_items s.joins 0 i
    rw [Nat.zero_add] at hzip
    rw [itemsOf_eq, h, Statement.ownedItems, List.filter_append, List.map_append, hzip]
    simp [List.filter_map, Function.comp_def]
  refine Prod.ext hroot (List.ext_getElem? fun i => ?_)
  cases hi : s.joins[i]? <;> simp [distribute, hi, hjoin]

/-! ## The whole select list -/

/-- The joins before any item is handed to them. -/
def emptied (joins : List Join) : List Join :=
  joins.map fun j => { j with items := [] }

theorem bind_eq_ok_iff {scope : Scope} {pending : List PendingItem} {groupBy : List ColumnRef}
    {joins : List Join} {result : List SelectItem × List Join} :
    bind scope pending groupBy joins = .ok result ↔
      ∃ bound, bindItems scope pending = .ok bound ∧ firstGroupingFault? bound groupBy = none ∧
        firstRepeatedLabel? (resultLabel? (entityOf scope joins) (aggregates bound groupBy))
          ((unselectedNames bound groupBy).map Text.lower) bound = none ∧
        distribute bound joins = result := by
  rw [bind]
  cases hitems : bindItems scope pending with
  | error e => simp
  | ok bound =>
    cases hgroup : firstGroupingFault? bound groupBy with
    | some e => simp [hgroup]
    | none =>
      cases hlabel : firstRepeatedLabel? (resultLabel? (entityOf scope joins)
        (aggregates bound groupBy)) ((unselectedNames bound groupBy).map Text.lower) bound with
      | some e => simp [hgroup, hlabel]
      | none => simp [hgroup, hlabel]

/-- The checks are made one after the other, and the first that fails gives the error. -/
theorem bind_eq_error_iff {scope : Scope} {pending : List PendingItem} {groupBy : List ColumnRef}
    {joins : List Join} {e : SyntaxError} :
    bind scope pending groupBy joins = .error e ↔
      bindItems scope pending = .error e ∨ ∃ bound, bindItems scope pending = .ok bound ∧
        (firstGroupingFault? bound groupBy = some e ∨ firstGroupingFault? bound groupBy = none ∧
          firstRepeatedLabel? (resultLabel? (entityOf scope joins) (aggregates bound groupBy))
            ((unselectedNames bound groupBy).map Text.lower) bound = some e) := by
  rw [bind]
  cases hitems : bindItems scope pending with
  | error e => simp
  | ok bound =>
    cases hgroup : firstGroupingFault? bound groupBy with
    | some e => simp [hgroup]
    | none =>
      cases hlabel : firstRepeatedLabel? (resultLabel? (entityOf scope joins)
        (aggregates bound groupBy)) ((unselectedNames bound groupBy).map Text.lower) bound with
      | some e => simp [hgroup, hlabel]
      | none => simp [hgroup, hlabel]

section Bound

variable {s : Statement} {scope : Scope} {bound : List BoundItem} {joins : List Join}

theorem aggregates_eq (h : (bound.map BoundItem.owned).Perm s.ownedItems) :
    aggregates bound s.groupBy = s.isAggregate := by
  have hany : (bound.any fun b => b.item.isAggregate) = s.allItems.any SelectItem.isAggregate := by
    rw [← s.map_fst_ownedItems, List.any_map, ← h.any_eq, List.any_map]
    rfl
  rw [aggregates, hany, Statement.isAggregate]

theorem unselectedNames_eq (h : (bound.map BoundItem.owned).Perm s.ownedItems) :
    unselectedNames bound s.groupBy = s.unselectedNames := by
  have hany : ∀ g, (bound.any fun b => b.item.selects g) =
      s.allItems.any fun item => item.selects g := by
    intro g
    rw [← s.map_fst_ownedItems, List.any_map, ← h.any_eq, List.any_map]
    rfl
  simp only [unselectedNames, Statement.unselectedNames, hany]

theorem entityOf_eq (hsource : scope.source = s.source)
    (hentities : joins.map Join.entity = s.joins.map Join.entity) (owner : Binding) :
    entityOf scope joins owner = s.entityOf owner := by
  cases owner with
  | root => rw [entityOf, Statement.entityOf, hsource]
  | join i =>
    have hi := congrArg (·[i]?) hentities
    simp only [List.getElem?_map] at hi
    rw [entityOf, Statement.entityOf, hi]

theorem filterMap_resultLabel?_perm (h : (bound.map BoundItem.owned).Perm s.ownedItems)
    (hsource : scope.source = s.source)
    (hentities : joins.map Join.entity = s.joins.map Join.entity) :
    (bound.filterMap (resultLabel? (entityOf scope joins) (aggregates bound s.groupBy))).Perm
      s.resultLabels := by
  have heq : bound.filterMap (resultLabel? (entityOf scope joins) (aggregates bound s.groupBy)) =
      (bound.map BoundItem.owned).filterMap fun p =>
        p.1.resultLabel? s.isAggregate (s.entityOf p.2) := by
    rw [List.filterMap_map, aggregates_eq h]
    apply List.filterMap_congr
    intro b _
    rw [resultLabel?_eq, entityOf_eq hsource hentities]
    rfl
  rw [heq, Statement.resultLabels]
  exact h.filterMap _

end Bound

/-- What binding an item says about the value it leaves. -/
structure ValueBound (scope : Scope) (value : SelectValue) (bound : SelectValue)
    (owner : Binding) : Prop where
  owned : bound.OwnedBy (scope.declared owner)
  has : scope.Has owner
  names_eq : bound.names = value.names
  wildcard : ∀ q, bound = .wildcard q → ∃ q', value = .wildcard q'
  star : ∀ call, bound = .aggregate call → call.argument = .star →
    value = .aggregate call ∧ owner = .root

theorem valueBound_of_bindValue {scope : Scope} {value bound : SelectValue} {owner : Binding}
    (h : bindValue scope value = .ok (bound, owner)) : ValueBound scope value bound owner := by
  obtain ⟨hbinds, rfl⟩ := bindsTo_of_bindValue h
  have hhas := hbinds.has
  cases value with
  | column c =>
    exact ⟨rfl, hhas, rfl, by simp [SelectValue.requalified], by simp [SelectValue.requalified]⟩
  | wildcard q =>
    exact ⟨rfl, hhas, rfl, fun _ _ => ⟨q, rfl⟩, by simp [SelectValue.requalified]⟩
  | aggregate call =>
    cases hargument : call.argument with
    | star =>
      have hself : (SelectValue.aggregate call).requalified (scope.declared owner) =
          .aggregate call := by simp [SelectValue.requalified, hargument]
      have hroot : owner = .root := by
        have hnames := hbinds.names
        rw [SelectValue.qualifier?] at hnames
        simp only [hargument] at hnames
        cases hnames
        rfl
      rw [hself]
      refine ⟨?_, hhas, rfl, by simp, fun call' hcall _ => ⟨hcall, hroot⟩⟩
      simp [SelectValue.OwnedBy, hargument, hroot, Scope.declared]
    | column c =>
      have hself : (SelectValue.aggregate call).requalified (scope.declared owner) =
          .aggregate { call with argument := .column ⟨scope.declared owner, c.name⟩ } := by
        simp [SelectValue.requalified, hargument]
      rw [hself]
      refine ⟨rfl, hhas, by simp [SelectValue.names, hargument], by simp, ?_⟩
      rintro call' ⟨rfl⟩ hstar
      simp at hstar

theorem exists_of_forall₂ {α β : Type} {R : α → β → Prop} {as : List α} {bs : List β}
    (h : List.Forall₂ R as bs) {b : β} (hb : b ∈ bs) : ∃ a ∈ as, R a b := by
  induction h with
  | nil => simp at hb
  | cons hab _ ih =>
    rcases List.mem_cons.1 hb with rfl | hb
    · exact ⟨_, List.mem_cons_self, hab⟩
    · obtain ⟨a, ha, hab⟩ := ih hb
      exact ⟨a, List.mem_cons_of_mem _ ha, hab⟩

/-- Handing out items changes nothing else in the joins. -/
theorem getElem?_distribute (bound : List BoundItem) (joins : List Join) (i : Nat) :
    (distribute bound joins).2[i]? =
      joins[i]?.map fun j => { j with items := j.items ++ itemsOf (.join i) bound } := by
  simp [distribute]

/-- What holds of a statement that was given a bound select list. -/
structure HandedOut (s : Statement) (scope : Scope) (pending : List PendingItem)
    (joins : List Join) : Prop where
  /-- Every item was bound to the owner that holds it. -/
  binds : ∀ b ∈ s.ownedItems, ∃ p ∈ pending, Binds scope p b
  ne_nil : pending ≠ [] → s.ownedItems ≠ []
  grouped : s.isAggregate = true → ∀ item ∈ s.allItems,
    (∀ owner, item.value ≠ .wildcard owner) ∧ ∀ c, item.value = .column c → c ∈ s.groupBy
  labels_distinct : (s.resultLabels.map Text.lower).Nodup
  labels_unselected : ∀ label ∈ s.resultLabels,
    Text.lower label ∉ s.unselectedNames.map Text.lower
  /-- The joins have changed in nothing but their items. -/
  joins_eq : ∀ i : Nat, ∃ items, s.joins[i]? = joins[i]?.map fun j : Join => { j with items }

/-- Every item is bound to an entity that is in scope. -/
theorem owner_of_binds {scope : Scope} {pending : List PendingItem} {bound : List BoundItem}
    (h : List.Forall₂ (Binds scope) pending (bound.map BoundItem.owned)) {b : BoundItem}
    (hb : b ∈ bound) : b.owner = .root ∨ ∃ i < scope.joined.length, b.owner = .join i := by
  obtain ⟨p, -, hp⟩ := exists_of_forall₂ h (List.mem_map_of_mem hb)
  exact (valueBound_of_bindValue hp.1).has.eq_root_or_join

/-- The joins change in nothing but their items. -/
theorem exists_items_of_distribute {bound : List BoundItem} {joins joins' : List Join}
    {root : List SelectItem} (h : distribute bound joins = (root, joins')) (i : Nat) :
    ∃ items, joins'[i]? = joins[i]?.map fun j : Join => { j with items } := by
  have hi := getElem?_distribute bound joins i
  rw [h] at hi
  cases hj : joins[i]? with
  | none => exact ⟨[], by rw [hi, hj]; rfl⟩
  | some j => exact ⟨_, by rw [hi, hj]; rfl⟩

theorem handedOut_of_bind {s : Statement} {scope : Scope} {pending : List PendingItem}
    {joins : List Join} (h : bind scope pending s.groupBy joins = .ok (s.items, s.joins))
    (hitems : ∀ j ∈ joins, j.items = []) (hsource : scope.source = s.source)
    (hjoined : scope.joined = joins.map Join.qualifier) : HandedOut s scope pending joins := by
  obtain ⟨bound, hbound, hgroup, hlabel, hdistribute⟩ := bind_eq_ok_iff.1 h
  have hbinds := binds_of_bindItems hbound
  have howner : ∀ b ∈ bound, b.owner = .root ∨ ∃ i < joins.length, b.owner = .join i := by
    intro b hb
    have hb := owner_of_binds hbinds hb
    rwa [hjoined, List.length_map] at hb
  have hperm := owned_perm_ownedItems hdistribute hitems howner
  have hjoins := exists_items_of_distribute hdistribute
  have hentities : joins.map Join.entity = s.joins.map Join.entity := by
    apply List.ext_getElem?
    intro i
    obtain ⟨items, hi⟩ := hjoins i
    rw [List.getElem?_map, List.getElem?_map, hi, Option.map_map]
    rfl
  -- the checks looked at the items in the order of the text, which does not matter to them
  have hlabels := filterMap_resultLabel?_perm hperm hsource hentities
  rw [firstRepeatedLabel?_eq_none_iff, unselectedNames_eq hperm] at hlabel
  rw [firstGroupingFault?_eq_none_iff, aggregates_eq hperm] at hgroup
  refine ⟨fun b hb => exists_of_forall₂ hbinds (hperm.mem_iff.2 hb), ?_, ?_, ?_, ?_, hjoins⟩
  · intro hne hnil
    rw [hnil, List.perm_nil, List.map_eq_nil_iff] at hperm
    subst hperm
    exact hne (List.forall₂_nil_right_iff.1 hbinds)
  · intro hagg item hitem
    rw [← s.map_fst_ownedItems, ← (hperm.map Prod.fst).mem_iff, List.map_map] at hitem
    obtain ⟨b, hb, rfl⟩ := List.mem_map.1 hitem
    exact hgroup hagg b hb
  · exact (hlabels.map Text.lower).nodup_iff.1 hlabel.1
  · exact fun label hmem => hlabel.2 label (hlabels.mem_iff.2 hmem)

/-- Items that are bound in the order of their owners are handed out as the statement holds
them, if they are handed out. -/
theorem eq_of_bind_ownedItems {s : Statement} {scope : Scope} {pending : List PendingItem}
    (h : List.Forall₂ (Binds scope) pending s.ownedItems) {groupBy : List ColumnRef}
    {result : List SelectItem × List Join}
    (hresult : bind scope pending groupBy (emptied s.joins) = .ok result) :
    result = (s.items, s.joins) := by
  obtain ⟨bound, hbound, howned⟩ := bindItems_of_binds h
  obtain ⟨bound', hbound', -, -, hdistribute⟩ := bind_eq_ok_iff.1 hresult
  obtain rfl : bound = bound' := Except.ok.inj (hbound.symm.trans hbound')
  exact hdistribute.symm.trans (distribute_ownedItems howned)

/-- The items of a writable statement, read in the order of their owners, are bound and
handed out as the statement holds them. -/
theorem bind_ownedItems {s : Statement} (hs : s.Writable) {scope : Scope}
    (hsource : scope.source = s.source) {pending : List PendingItem}
    (h : List.Forall₂ (Binds scope) pending s.ownedItems) :
    bind scope pending s.groupBy (emptied s.joins) = .ok (s.items, s.joins) := by
  obtain ⟨bound, hbound, howned⟩ := bindItems_of_binds h
  have hperm : (bound.map BoundItem.owned).Perm s.ownedItems := by rw [howned]
  have hentities : (emptied s.joins).map Join.entity = s.joins.map Join.entity := by
    rw [emptied, List.map_map]
    rfl
  have hlabels := filterMap_resultLabel?_perm hperm hsource hentities
  refine bind_eq_ok_iff.2 ⟨bound, hbound, ?_, ?_, distribute_ownedItems howned⟩
  · rw [firstGroupingFault?_eq_none_iff, aggregates_eq hperm]
    intro hagg b hb
    refine hs.grouped hagg b.item ?_
    rw [← s.map_fst_ownedItems, ← howned, List.map_map]
    exact List.mem_map_of_mem (f := Prod.fst ∘ BoundItem.owned) hb
  · rw [firstRepeatedLabel?_eq_none_iff, unselectedNames_eq hperm]
    refine ⟨(hlabels.map Text.lower).nodup_iff.2 hs.labels_distinct, fun label hlabel => ?_⟩
    exact hs.labels_unselected label (hlabels.mem_iff.1 hlabel)

end SelectList

end FetchQuery
