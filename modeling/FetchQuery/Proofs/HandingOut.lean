import FetchQuery.Proofs.SelectList

/-!
# Handing out the select list

Binding a select list hands every item to the entity that it resolves to, in the order of the list,
with its label and up to the spelling of its qualifier; or it stops at the first item at fault and
leaves the joins as they were (`SelectList.bind_hands_out`).

An item at fault is one that does not resolve, or else one that breaks the grouping rule, or else
one whose label is taken (`SelectList.FirstFault`). The joins are followed through the steps that
change them one item at a time (`SelectList.bindInPlace`): no step changes a join unless all checks
are passed.
-/

set_option autoImplicit false

namespace FetchQuery

namespace SelectList

/-! ## The first item at fault -/

section FirstAt

variable {α : Type} {P : List α → α → Prop}

/-- The first element of a list that has a property, which may depend on what precedes it. -/
def FirstAt (P : List α → α → Prop) (l : List α) (a : α) : Prop :=
  ∃ before behind, l = before ++ a :: behind ∧ P before a ∧
    ∀ before' b behind', before = before' ++ b :: behind' → ¬P before' b

theorem not_firstAt_nil (a : α) : ¬FirstAt P [] a := by
  rintro ⟨before, behind, h, -, -⟩
  simp at h

theorem firstAt_cons_iff {a b : α} {l : List α} :
    FirstAt P (a :: l) b ↔
      P [] a ∧ a = b ∨ ¬P [] a ∧ FirstAt (fun before => P (a :: before)) l b := by
  constructor
  · rintro ⟨before, behind, heq, hb, hfirst⟩
    cases before with
    | nil =>
      obtain ⟨rfl, rfl⟩ := List.cons.inj heq
      exact Or.inl ⟨hb, rfl⟩
    | cons c before =>
      obtain ⟨rfl, rfl⟩ := List.cons.inj heq
      refine Or.inr ⟨hfirst [] a before rfl, before, behind, rfl, hb, fun before' d behind' h => ?_⟩
      exact hfirst (a :: before') d behind' (by rw [h]; rfl)
  · rintro (⟨ha, rfl⟩ | ⟨ha, before, behind, rfl, hb, hfirst⟩)
    · exact ⟨[], l, rfl, ha, by simp⟩
    · refine ⟨a :: before, behind, rfl, hb, fun before' d behind' h => ?_⟩
      cases before' with
      | nil =>
        obtain ⟨rfl, -⟩ := List.cons.inj h
        exact ha
      | cons c before' =>
        obtain ⟨rfl, hbefore⟩ := List.cons.inj h
        exact hfirst before' d behind' hbefore

/-- A property of single elements does not look at what precedes them. -/
theorem firstAt_of_forall_mem {p : α → Prop} {before behind : List α} {a : α} (ha : p a)
    (h : ∀ b ∈ before, ¬p b) : FirstAt (fun _ => p) (before ++ a :: behind) a := by
  refine ⟨before, behind, rfl, ha, ?_⟩
  rintro before' b behind' rfl
  exact h b (by simp)

theorem FirstAt.exists_mem {l : List α} {a : α} (h : FirstAt P l a) :
    a ∈ l ∧ ∃ before, P before a := by
  obtain ⟨before, behind, rfl, ha, -⟩ := h
  exact ⟨by simp, before, ha⟩

end FirstAt

theorem firstAt_of_bindItems {scope : Scope} {pending : List PendingItem} {e : SyntaxError}
    (h : bindItems scope pending = .error e) :
    ∃ p, FirstAt (fun _ p => ∀ owner, ¬p.item.value.BindsTo scope owner) pending p ∧
      e.position = p.position := by
  fun_induction bindItems scope pending with
  | case1 => simp at h
  | case2 p rest fault hfault =>
    obtain rfl := Except.error.inj h
    refine ⟨p, firstAt_cons_iff.2 (Or.inl ⟨fun owner hbinds => ?_, rfl⟩), rfl⟩
    rw [bindValue_of_bindsTo hbinds] at hfault
    simp at hfault
  | case3 p rest value owner hvalue e' hrest ih =>
    -- this item binds, so the first that does not is behind it
    obtain rfl := Except.error.inj h
    obtain ⟨q, hq, hposition⟩ := ih hrest
    refine ⟨q, firstAt_cons_iff.2 (Or.inr ⟨fun hnone => ?_, hq⟩), hposition⟩
    exact hnone owner (bindsTo_of_bindValue hvalue).1
  | case4 => simp at h

/-- An item breaks the grouping rule: the query groups its rows or computes an aggregate, and the
item is neither an aggregate nor a grouping column. -/
def BreaksGrouping (groupBy : List ColumnRef) (bound : List BoundItem) (b : BoundItem) : Prop :=
  (groupBy ≠ [] ∨ ∃ b' ∈ bound, ∃ call, b'.item.value = .aggregate call) ∧
    ((∃ owner, b.item.value = .wildcard owner) ∨ ∃ c, b.item.value = .column c ∧ c ∉ groupBy)

theorem aggregates_iff {bound : List BoundItem} {groupBy : List ColumnRef} :
    aggregates bound groupBy = true ↔
      groupBy ≠ [] ∨ ∃ b ∈ bound, ∃ call, b.item.value = .aggregate call := by
  have hitem : ∀ b : BoundItem, b.item.isAggregate = true ↔
      ∃ call, b.item.value = .aggregate call := by
    intro b
    rw [SelectItem.isAggregate]
    cases b.item.value <;> simp
  rw [aggregates, Bool.or_eq_true, List.any_eq_true]
  simp [hitem]

theorem breaksGrouping_iff {groupBy : List ColumnRef} {bound : List BoundItem} {b : BoundItem} :
    BreaksGrouping groupBy bound b ↔
      aggregates bound groupBy = true ∧ groupingFault? groupBy b ≠ none := by
  rw [BreaksGrouping, aggregates_iff]
  refine and_congr_right fun _ => ?_
  simp only [ne_eq, groupingFault?_eq_none_iff, not_and_or, not_forall, not_not, exists_prop]

theorem position_of_groupingFault? {groupBy : List ColumnRef} {b : BoundItem} {e : SyntaxError}
    (h : groupingFault? groupBy b = some e) : e.position = b.position := by
  rw [groupingFault?] at h
  cases hvalue : b.item.value with
  | column c =>
    simp only [hvalue] at h
    split at h
    · simp at h
    · rw [← Option.some.inj h]
  | wildcard owner =>
    simp only [hvalue] at h
    rw [← Option.some.inj h]
  | aggregate call => simp [hvalue] at h

theorem firstGroupingFault?_eq_none_iff_forall {bound : List BoundItem}
    {groupBy : List ColumnRef} :
    firstGroupingFault? bound groupBy = none ↔ ∀ b ∈ bound, ¬BreaksGrouping groupBy bound b := by
  simp only [breaksGrouping_iff]
  rw [firstGroupingFault?]
  split
  · next h => simp [h]
  · next h => simp [h]

theorem firstAt_of_firstGroupingFault? {bound : List BoundItem} {groupBy : List ColumnRef}
    {e : SyntaxError} (h : firstGroupingFault? bound groupBy = some e) :
    ∃ b, FirstAt (fun _ b => BreaksGrouping groupBy bound b) bound b ∧ e.position = b.position := by
  rw [firstGroupingFault?] at h
  split at h
  · next haggregates =>
    obtain ⟨before, b, behind, hbound, hb, hbefore⟩ := List.findSome?_eq_some_iff.1 h
    refine ⟨b, ?_, position_of_groupingFault? hb⟩
    simp only [breaksGrouping_iff, haggregates, true_and]
    rw [hbound]
    exact firstAt_of_forall_mem (by simp [hb]) fun b' hb' => not_not.2 (hbefore b' hb')
  · simp at h

/-- A label repeats a name that is taken or an earlier label, letter case aside. -/
def Repeats (label? : BoundItem → Option String) (taken : String → Prop)
    (before : List BoundItem) (b : BoundItem) : Prop :=
  ∃ label, label? b = some label ∧
    ∃ name, (taken name ∨ ∃ b' ∈ before, label? b' = some name) ∧ Text.sameName name label = true

/-- For the items behind another one, its label is one more name that is taken. -/
theorem repeats_cons (label? : BoundItem → Option String) (taken : String → Prop)
    (b : BoundItem) :
    (fun before => Repeats label? taken (b :: before)) =
      Repeats label? fun name => taken name ∨ label? b = some name := by
  funext before b'
  simp only [Repeats, List.exists_mem_cons_iff, or_assoc]

/-- The check of the labels goes along the items with the names that are taken so far. -/
theorem firstRepeatedLabel?_spec {label? : BoundItem → Option String} {taken : String → Prop}
    {seen : List String} (hseen : ∀ s, s ∈ seen ↔ ∃ name, taken name ∧ Text.lower name = s)
    (bound : List BoundItem) :
    (firstRepeatedLabel? label? seen bound = none →
        ∀ b, ¬FirstAt (Repeats label? taken) bound b) ∧
      ∀ e, firstRepeatedLabel? label? seen bound = some e →
        ∃ b, FirstAt (Repeats label? taken) bound b ∧ e.position = b.position := by
  induction bound generalizing seen taken with
  | nil => exact ⟨fun _ => not_firstAt_nil, by simp [firstRepeatedLabel?]⟩
  | cons b bound ih =>
    have hfirst : Repeats label? taken [] b ↔
        ∃ label, label? b = some label ∧ Text.lower label ∈ seen := by
      simp [Repeats, hseen, Text.sameName_iff]
    simp only [firstAt_cons_iff, hfirst]
    rw [repeats_cons, firstRepeatedLabel?]
    cases hb : label? b with
    | none =>
      have hsame : ∀ s, s ∈ seen ↔
          ∃ name, (taken name ∨ none = some name) ∧ Text.lower name = s := by
        simpa using hseen
      simpa using ih hsame
    | some label =>
      by_cases hmem : Text.lower label ∈ seen
      · simp [hmem]
      · -- behind this item its label counts as taken
        have hmore : ∀ s, s ∈ Text.lower label :: seen ↔
            ∃ name, (taken name ∨ some label = some name) ∧ Text.lower name = s := by
          intro s
          rw [List.mem_cons, hseen]
          simp only [or_and_right, exists_or, Option.some.injEq, exists_eq_left']
          rw [or_comm, eq_comm]
        simpa [hmem] using ih hmore

/-- The label of a bound item repeats that of an earlier one, or the name of a grouping column that
no item selects. -/
def RepeatsLabel (scope : Scope) (groupBy : List ColumnRef) (joins : List Join)
    (bound : List BoundItem) : List BoundItem → BoundItem → Prop :=
  Repeats (fun b => b.item.resultLabel? (aggregates bound groupBy) (entityOf scope joins b.owner))
    fun name => ∃ g ∈ groupBy, (∀ b ∈ bound, b.item.value ≠ .column g) ∧ g.name = name

theorem mem_unselectedNames_iff {bound : List BoundItem} {groupBy : List ColumnRef}
    {name : String} :
    name ∈ unselectedNames bound groupBy ↔
      ∃ g ∈ groupBy, (∀ b ∈ bound, b.item.value ≠ .column g) ∧ g.name = name := by
  have hitem : ∀ (b : BoundItem) (g : ColumnRef), b.item.selects g = false ↔
      b.item.value ≠ .column g := by
    intro b g
    rw [SelectItem.selects]
    cases b.item.value <;> simp
  simp [unselectedNames, hitem, and_assoc]

/-- Where the check of a select list stops: at the first item that does not resolve, or else the
first that breaks the grouping rule, or else the first whose label is taken. -/
inductive FirstFault (scope : Scope) (pending : List PendingItem) (groupBy : List ColumnRef)
    (joins : List Join) : Position → Prop
  | unbound {p : PendingItem}
      (h : FirstAt (fun _ p => ∀ owner, ¬p.item.value.BindsTo scope owner) pending p) :
      FirstFault scope pending groupBy joins p.position
  | ungrouped {bound : List BoundItem} {b : BoundItem}
      (hbound : List.Forall₂ (BoundFrom scope) pending bound)
      (h : FirstAt (fun _ b => BreaksGrouping groupBy bound b) bound b) :
      FirstFault scope pending groupBy joins b.position
  | repeated {bound : List BoundItem} {b : BoundItem}
      (hbound : List.Forall₂ (BoundFrom scope) pending bound)
      (hgrouped : ∀ b ∈ bound, ¬BreaksGrouping groupBy bound b)
      (h : FirstAt (RepeatsLabel scope groupBy joins bound) bound b) :
      FirstFault scope pending groupBy joins b.position

section Checks

variable {scope : Scope} {pending : List PendingItem} {groupBy : List ColumnRef}
  {joins : List Join}

theorem labels_spec (scope : Scope) (groupBy : List ColumnRef) (joins : List Join)
    (bound : List BoundItem) :
    (firstRepeatedLabel? (resultLabel? (entityOf scope joins) (aggregates bound groupBy))
        ((unselectedNames bound groupBy).map Text.lower) bound = none →
        ∀ b, ¬FirstAt (RepeatsLabel scope groupBy joins bound) bound b) ∧
      ∀ e, firstRepeatedLabel? (resultLabel? (entityOf scope joins) (aggregates bound groupBy))
          ((unselectedNames bound groupBy).map Text.lower) bound = some e →
        ∃ b, FirstAt (RepeatsLabel scope groupBy joins bound) bound b ∧
          e.position = b.position := by
  have hlabel : resultLabel? (entityOf scope joins) (aggregates bound groupBy) = fun b =>
      b.item.resultLabel? (aggregates bound groupBy) (entityOf scope joins b.owner) :=
    funext (resultLabel?_eq _ _)
  rw [hlabel]
  refine firstRepeatedLabel?_spec (fun s => ?_) bound
  simp only [List.mem_map, mem_unselectedNames_iff]

theorem firstFault_of_bind {e : SyntaxError}
    (h : bind scope pending groupBy joins = .error e) :
    FirstFault scope pending groupBy joins e.position := by
  rcases bind_eq_error_iff.1 h with hitems | ⟨bound, hitems, hgroup | ⟨hgroup, hlabel⟩⟩
  · obtain ⟨p, hp, hposition⟩ := firstAt_of_bindItems hitems
    rw [hposition]
    exact .unbound hp
  · obtain ⟨b, hb, hposition⟩ := firstAt_of_firstGroupingFault? hgroup
    rw [hposition]
    exact .ungrouped (bindItems_eq_ok_iff.1 hitems) hb
  · obtain ⟨b, hb, hposition⟩ := (labels_spec scope groupBy joins bound).2 e hlabel
    rw [hposition]
    exact .repeated (bindItems_eq_ok_iff.1 hitems)
      (firstGroupingFault?_eq_none_iff_forall.1 hgroup) hb

/-- A select list that is handed out has no item at fault. -/
theorem not_firstFault_of_bind {result : List SelectItem × List Join}
    (h : bind scope pending groupBy joins = .ok result) (position : Position) :
    ¬FirstFault scope pending groupBy joins position := by
  obtain ⟨bound, hitems, hgroup, hlabel, -⟩ := bind_eq_ok_iff.1 h
  rw [firstGroupingFault?_eq_none_iff_forall] at hgroup
  -- what the items are bound to is determined
  have hunique : ∀ {bound'}, List.Forall₂ (BoundFrom scope) pending bound' → bound' = bound :=
    fun h' => Except.ok.inj ((bindItems_eq_ok_iff.2 h').symm.trans hitems)
  rintro (hp | ⟨hbound, hb⟩ | ⟨hbound, -, hb⟩)
  · obtain ⟨hmem, -, hnone⟩ := hp.exists_mem
    obtain ⟨b, -, hb⟩ := exists_of_forall₂ (bindItems_eq_ok_iff.1 hitems).flip hmem
    exact hnone _ hb.binds
  · obtain rfl := hunique hbound
    obtain ⟨hmem, -, hbreaks⟩ := hb.exists_mem
    exact hgroup _ hmem hbreaks
  · obtain rfl := hunique hbound
    exact (labels_spec scope groupBy joins _).1 hlabel _ hb

end Checks

/-! ## Item by item -/

/-- Gives a join one more item. -/
def gain (item : SelectItem) (j : Join) : Join :=
  { j with items := j.items ++ [item] }

/-- Hands out bound items one after the other: an item of a join is put behind the items that the
join has already, the items of the root are collected. -/
def handOut : List BoundItem → EStateM SyntaxError (List Join) (List SelectItem)
  | [] => pure []
  | b :: rest =>
    match b.owner with
    | .root => do
      let items ← handOut rest
      pure (b.item :: items)
    | .join i => do
      modify fun joins => joins.modify i (gain b.item)
      handOut rest

/-- Fails if a fault is given. -/
def stopAt : Option SyntaxError → EStateM SyntaxError (List Join) Unit
  | none => pure ()
  | some e => throw e

/-- Binds a select list with the joins as a state: all items are bound and checked, then they are
handed out one by one. -/
def bindInPlace (scope : Scope) (pending : List PendingItem) (groupBy : List ColumnRef) :
    EStateM SyntaxError (List Join) (List SelectItem) := do
  let bound ← MonadExcept.ofExcept (bindItems scope pending)
  stopAt (firstGroupingFault? bound groupBy)
  let label? := resultLabel? (entityOf scope (← get)) (aggregates bound groupBy)
  stopAt (firstRepeatedLabel? label? ((unselectedNames bound groupBy).map Text.lower) bound)
  handOut bound

theorem itemsOf_cons (owner : Binding) (b : BoundItem) (bound : List BoundItem) :
    itemsOf owner (b :: bound) =
      if b.owner = owner then b.item :: itemsOf owner bound else itemsOf owner bound := by
  by_cases h : b.owner = owner <;> simp [itemsOf, h]

/-- An item of the root goes in front of the later ones. -/
theorem distribute_cons_root {b : BoundItem} (hb : b.owner = .root) (bound : List BoundItem)
    (joins : List Join) :
    distribute (b :: bound) joins =
      (b.item :: (distribute bound joins).1, (distribute bound joins).2) := by
  simp [distribute, itemsOf_cons, hb]

/-- An item of a join goes to the join before the later ones. -/
theorem distribute_cons_join {b : BoundItem} {i : Nat} (hb : b.owner = .join i)
    (bound : List BoundItem) (joins : List Join) :
    distribute (b :: bound) joins = distribute bound (joins.modify i (gain b.item)) := by
  refine Prod.ext (by simp [distribute, itemsOf_cons, hb]) (List.ext_getElem? fun k => ?_)
  rw [getElem?_distribute, getElem?_distribute, List.getElem?_modify, itemsOf_cons, hb]
  -- only the join that owns the item has changed before the later items come
  by_cases hk : i = k
  · cases hj : joins[k]? <;> simp [hk, gain]
  · cases hj : joins[k]? <;> simp [hk]

theorem distribute_nil (joins : List Join) : distribute [] joins = ([], joins) := by
  refine Prod.ext rfl (List.ext_getElem? fun i => ?_)
  rw [getElem?_distribute]
  cases joins[i]? <;> simp [itemsOf]

/-- Item by item the items come to where they belong. -/
theorem handOut_eq (bound : List BoundItem) (joins : List Join) :
    handOut bound joins = .ok (distribute bound joins).1 (distribute bound joins).2 := by
  induction bound generalizing joins with
  | nil =>
    rw [distribute_nil]
    rfl
  | cons b bound ih =>
    rw [handOut]
    cases hb : b.owner with
    | root =>
      rw [distribute_cons_root hb]
      simp only [Bind.bind, EStateM.bind, ih]
      rfl
    | join i =>
      rw [distribute_cons_join hb, ← ih]
      rfl

section InPlace

variable {scope : Scope} {pending : List PendingItem} {groupBy : List ColumnRef}
  {joins : List Join}

/-- With all items bound, the checks of grouping and labels are left. -/
theorem bindInPlace_of_bindItems {bound : List BoundItem}
    (h : bindItems scope pending = .ok bound) :
    bindInPlace scope pending groupBy joins =
      (stopAt (firstGroupingFault? bound groupBy) >>= fun _ =>
        stopAt (firstRepeatedLabel? (resultLabel? (entityOf scope joins)
          (aggregates bound groupBy)) ((unselectedNames bound groupBy).map Text.lower) bound) >>=
        fun _ => handOut bound) joins := by
  rw [bindInPlace, h]
  change (stopAt (firstGroupingFault? bound groupBy) >>= fun _ => _) joins = _
  cases firstGroupingFault? bound groupBy <;> rfl

theorem bindInPlace_of_ok {result : List SelectItem × List Join}
    (h : bind scope pending groupBy joins = .ok result) :
    bindInPlace scope pending groupBy joins = .ok result.1 result.2 := by
  obtain ⟨bound, hitems, hgroup, hlabel, rfl⟩ := bind_eq_ok_iff.1 h
  rw [bindInPlace_of_bindItems hitems, hgroup, hlabel, ← handOut_eq]
  rfl

/-- A select list is refused before any join has been changed. -/
theorem bindInPlace_of_error {e : SyntaxError}
    (h : bind scope pending groupBy joins = .error e) :
    bindInPlace scope pending groupBy joins = .error e joins := by
  rcases bind_eq_error_iff.1 h with hitems | ⟨bound, hitems, hgroup | ⟨hgroup, hlabel⟩⟩
  · rw [bindInPlace, hitems]
    rfl
  · rw [bindInPlace_of_bindItems hitems, hgroup]
    rfl
  · rw [bindInPlace_of_bindItems hitems, hgroup, hlabel]
    rfl

end InPlace

/-! ## The whole select list -/

/-- Bound items with their owners: the root holds its items, every join has its items behind those
that it had, and nothing else is changed or left over. -/
structure Distributed (bound : List BoundItem) (joins : List Join) (root : List SelectItem)
    (joins' : List Join) : Prop where
  owner_mem : ∀ b ∈ bound, b.owner = .root ∨ ∃ i < joins.length, b.owner = .join i
  root_eq : root = (bound.filter fun b => b.owner == .root).map BoundItem.item
  joins_eq : ∀ i : Nat, joins'[i]? = joins[i]?.map fun j =>
    { j with items := j.items ++ (bound.filter fun b => b.owner == .join i).map BoundItem.item }
  /-- The lists of all owners together are the items. -/
  perm : (bound.map BoundItem.item).Perm (root ++ (List.range' 0 joins.length).flatMap fun i =>
    (bound.filter fun b => b.owner == .join i).map BoundItem.item)

theorem distributed_of_boundFrom {scope : Scope} {pending : List PendingItem}
    {bound : List BoundItem} {joins : List Join}
    (hbound : List.Forall₂ (BoundFrom scope) pending bound)
    (h : scope.joined.length = joins.length) :
    Distributed bound joins (distribute bound joins).1 (distribute bound joins).2 := by
  have howner : ∀ b ∈ bound, b.owner = .root ∨ ∃ i < joins.length, b.owner = .join i := by
    intro b hb
    obtain ⟨p, -, hp⟩ := exists_of_forall₂ hbound hb
    rw [← h]
    exact hp.binds.has.eq_root_or_join
  refine ⟨howner, rfl, getElem?_distribute bound joins, ?_⟩
  have hperm := perm_flatMap_filter BoundItem.owner (nodup_entities joins.length) (l := bound)
    fun b hb => mem_entities_iff.2 (howner b hb)
  have hitems := hperm.map BoundItem.item
  rwa [List.map_flatMap, entities, List.flatMap_cons, List.flatMap_map] at hitems

/-- A select list is handed out or refused as a whole. If it is handed out, every item is with the
owner that it resolves to, in the order of the list and nowhere else, and no item is at fault. If
it is refused, the joins are as they were and the error is at the first item at fault. -/
theorem bind_hands_out (scope : Scope) (pending : List PendingItem) (groupBy : List ColumnRef)
    (joins : List Join) (h : scope.joined.length = joins.length) :
    (∃ root joins' bound, bind scope pending groupBy joins = .ok (root, joins') ∧
      bindInPlace scope pending groupBy joins = .ok root joins' ∧
      List.Forall₂ (BoundFrom scope) pending bound ∧ Distributed bound joins root joins' ∧
      ∀ position, ¬FirstFault scope pending groupBy joins position) ∨
    ∃ e, bind scope pending groupBy joins = .error e ∧
      bindInPlace scope pending groupBy joins = .error e joins ∧
      FirstFault scope pending groupBy joins e.position := by
  cases hbind : bind scope pending groupBy joins with
  | error e =>
    exact Or.inr ⟨e, rfl, bindInPlace_of_error hbind, firstFault_of_bind hbind⟩
  | ok result =>
    obtain ⟨bound, hitems, -, -, rfl⟩ := bind_eq_ok_iff.1 hbind
    have hbound := bindItems_eq_ok_iff.1 hitems
    exact Or.inl ⟨_, _, bound, rfl, bindInPlace_of_ok hbind, hbound,
      distributed_of_boundFrom hbound h, not_firstFault_of_bind hbind⟩

/-- The books and their authors, with the columns to be bound by qualifiers in any letter case. -/
def bookScope : Scope :=
  ⟨⟨"book", some "b"⟩, ["author"], false⟩

def bookJoins : List Join :=
  [⟨"author", none, .inner, none, "authorid", "id", []⟩]

def bookItems : List PendingItem :=
  [⟨⟨.column ⟨some "AUTHOR", "name"⟩, some "by"⟩, ⟨1, 8, 7⟩⟩,
    ⟨⟨.column ⟨some "B", "pages"⟩, none⟩, ⟨1, 27, 26⟩⟩,
    ⟨⟨.wildcard (some "Author"), none⟩, ⟨1, 36, 35⟩⟩]

/-- One more column, with a label that is given already. -/
def bookPrice : PendingItem :=
  ⟨⟨.column ⟨some "b", "price"⟩, some "BY"⟩, ⟨1, 46, 45⟩⟩

theorem bind_hands_out_books :
    (∃ bound, List.Forall₂ (BoundFrom bookScope) bookItems bound ∧
      Distributed bound bookJoins [⟨.column ⟨none, "pages"⟩, none⟩]
        [⟨"author", none, .inner, none, "authorid", "id",
          [⟨.column ⟨some "author", "name"⟩, some "by"⟩, ⟨.wildcard (some "author"), none⟩]⟩]) ∧
      bindInPlace bookScope (bookItems ++ [bookPrice]) [] bookJoins =
        .error ⟨.repeatedLabel "BY", bookPrice.position⟩ bookJoins ∧
      FirstFault bookScope (bookItems ++ [bookPrice]) [] bookJoins bookPrice.position := by
  constructor
  · have hok : bind bookScope bookItems [] bookJoins =
        .ok ([⟨.column ⟨none, "pages"⟩, none⟩], [⟨"author", none, .inner, none, "authorid", "id",
          [⟨.column ⟨some "author", "name"⟩, some "by"⟩,
            ⟨.wildcard (some "author"), none⟩]⟩]) := by rfl
    rcases bind_hands_out bookScope bookItems [] bookJoins rfl with
      ⟨root, joins', bound, hbind, -, hbound, hdistributed, -⟩ | ⟨e, hbind, -⟩
    · obtain ⟨rfl, rfl⟩ := Prod.mk.inj (Except.ok.inj (hbind.symm.trans hok))
      exact ⟨bound, hbound, hdistributed⟩
    · simp [hok] at hbind
  · have herror : bind bookScope (bookItems ++ [bookPrice]) [] bookJoins =
        .error ⟨.repeatedLabel "BY", bookPrice.position⟩ := by rfl
    rcases bind_hands_out bookScope (bookItems ++ [bookPrice]) [] bookJoins rfl with
      ⟨root, joins', bound, hbind, -⟩ | ⟨e, hbind, hjoins, hfault⟩
    · simp [herror] at hbind
    · obtain rfl := Except.error.inj (hbind.symm.trans herror)
      exact ⟨hjoins, hfault⟩

end SelectList

end FetchQuery
