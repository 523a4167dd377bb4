import FetchQuery.Proofs.Sql.Outcomes
import FetchQuery.Proofs.Sql.RoundTrip

/-!
# Accepted statements

Every statement that is read from a text is well bound (`wellBound_of_parse`) and has a text
itself (`writable_of_parse`), under both options. So printing is the inverse of reading on
everything that reading accepts (`parse_render_of_parse`).

The entities come into scope join by join, the select list is bound last, and sort columns may
be labels that are not bound at all; what each clause yields is collected in the order of
reading and put together in `yields_statementBody`.
-/

set_option autoImplicit false

namespace FetchQuery.Sql

/-! ## The select list -/

theorem yields_optionalLabel : Yields optionalLabel fun label => "" ∉ label.toList := by
  have hlabel : Yields (identifier .label >>= fun label => pure (some label))
      fun label => "" ∉ label.toList :=
    (yields_identifier _).bind fun label hne => yields_pure (by simpa using hne.symm)
  refine (yields_eat _).then fun _ => yields_ite (fun _ => hlabel) fun _ => ?_
  have hat : Yields atIdentifier fun _ => True := by
    refine yields_currentKind.bind fun k _ => ?_
    split <;> exact yields_pure trivial
  exact hat.then fun _ => yields_ite (fun _ => hlabel) fun _ => yields_pure (by simp)

/-- A select value with names, whose star stands in a plain `COUNT`. -/
structure ValueRead (value : SelectValue) : Prop where
  named : "" ∉ value.names
  star_count : ∀ call, value = .aggregate call → call.argument = .star →
    call.function = .count ∧ call.distinct = false

theorem valueRead_column {c : ColumnRef} (h : c.name ≠ "") : ValueRead (.column c) :=
  ⟨by simpa [SelectValue.names] using h.symm, by simp⟩

theorem valueRead_wildcard (owner : Option String) : ValueRead (.wildcard owner) :=
  ⟨by simp [SelectValue.names], by simp⟩

theorem yields_aggregateCall (function : AggregateFunction) :
    Yields (aggregateCall function) fun call => ValueRead (.aggregate call) := by
  refine yields_advance.then fun _ => (yields_eat _).then fun distinct => ?_
  have hargument : Yields (aggregateArgument function distinct) fun argument =>
      ValueRead (.aggregate ⟨function, argument, distinct⟩) := by
    refine (yields_isAt _).then fun _ => yields_ite (fun _ => ?_) fun _ => ?_
    · refine yields_ite (fun _ => yields_failHere _) fun hcount => ?_
      refine yields_advance.then fun _ => yields_pure ⟨by simp [SelectValue.names], ?_⟩
      rintro call ⟨rfl⟩ -
      simpa [not_or] using hcount
    · refine yields_columnRef.bind fun c hc => yields_pure ⟨?_, ?_⟩
      · simpa [SelectValue.names] using hc.symm
      · rintro call ⟨rfl⟩ hstar
        simp at hstar
  exact hargument.bind fun argument hread => (yields_expect _ _).then fun _ => yields_pure hread

theorem yields_namedValue {name : String} (hname : name ≠ "") (position : Position) :
    Yields (namedValue name position) ValueRead := by
  refine (yields_isAt _).then fun _ => yields_ite (fun _ => ?_) fun _ => ?_
  · split
    · exact (yields_aggregateCall _).bind fun call hread => yields_pure hread
    · exact yields_failAt _ _
  · refine (yields_eat _).then fun _ => yields_ite (fun _ => ?_) fun _ => ?_
    · refine (yields_eat _).then fun _ => yields_ite
        (fun _ => yields_pure (valueRead_wildcard _)) fun _ => ?_
      exact (yields_identifier _).bind fun column hcolumn =>
        yields_pure (valueRead_column hcolumn)
    · exact yields_pure (valueRead_column hname)

/-- An item as it is read: a wildcard has no label. -/
structure ItemRead (pending : PendingItem) : Prop where
  value : ValueRead pending.item.value
  label : "" ∉ pending.item.label.toList
  wildcard : ∀ owner, pending.item.value = .wildcard owner → pending.item.label = none

theorem yields_selectItem : Yields selectItem ItemRead := by
  refine yields_currentPosition.then fun position => ?_
  have hvalue : Yields (selectValue position) ValueRead := by
    refine (yields_eat _).then fun _ => yields_ite
      (fun _ => yields_pure (valueRead_wildcard none)) fun _ => ?_
    exact (yields_identifier _).bind fun name hname => yields_namedValue hname position
  refine hvalue.bind fun value hread => yields_optionalLabel.bind fun label hlabel => ?_
  split
  · exact yields_failAt _ _
  · next hwildcard =>
    refine yields_pure ⟨hread, hlabel, fun owner howner => ?_⟩
    cases label with
    | none => rfl
    | some label => exact absurd rfl (hwildcard owner label howner)

theorem yields_selectList :
    Yields selectList fun pending => pending ≠ [] ∧ ∀ p ∈ pending, ItemRead p :=
  yields_currentKind.bind fun _ _ => yields_ite (fun _ => yields_commaList yields_selectItem)
    fun _ => yields_unexpected _

/-! ## Entities and joins -/

theorem yields_source : Yields source fun root => "" ∉ root.entity :: root.label.toList := by
  refine (yields_isAt _).then fun _ => yields_ite (fun _ => yields_failHere _) fun _ => ?_
  refine (yields_identifier _).bind fun entity hentity => ?_
  refine (yields_isAt _).then fun _ => yields_ite (fun _ => yields_failHere _) fun _ => ?_
  refine yields_optionalLabel.bind fun label hlabel => yields_pure ?_
  rw [List.mem_cons, not_or]
  exact ⟨hentity.symm, hlabel⟩

theorem yields_joinKind : Yields joinKind fun _ => True := by
  refine yields_currentKind.bind fun k _ => ?_
  split
  · exact yields_advance.then fun _ => yields_pure trivial
  · exact yields_advance.then fun _ => (yields_expect _ _).then fun _ => yields_pure trivial
  · exact yields_advance.then fun _ => (yields_eat _).then fun _ => (yields_expect _ _).then
      fun _ => yields_pure trivial
  · exact yields_failHere _
  · exact yields_failHere _
  · exact yields_failHere _
  · exact yields_pure trivial

/-- A link to the root or to an entity that is joined already, by attributes with names. -/
def LinkRead (scope : Scope) (link : JoinLink) : Prop :=
  (∀ p, link.parent = some p → p ∈ scope.joined) ∧ link.fromAttribute ≠ "" ∧
    link.toAttribute ≠ ""

theorem yields_joinLink (scope : Scope) (q : String) :
    Yields (joinLink (scope.extend q)) (LinkRead scope) := by
  refine yields_currentPosition.then fun position => ?_
  refine yields_columnRef.bind fun left hleft => (yields_expect _ _).then fun _ => ?_
  refine yields_columnRef.bind fun right hright => yields_currentKind.bind fun k _ => ?_
  have hlink : Yields (inScope position ((scope.extend q).orient left right))
      (LinkRead scope) := by
    refine (yields_inScope position _).mono fun link hlink => ?_
    obtain ⟨hparent, hnames⟩ := Scope.orient_spec hlink
    refine ⟨hparent, ?_⟩
    rcases hnames with ⟨hfrom, hto⟩ | ⟨hfrom, hto⟩
    · rw [hfrom, hto]
      exact ⟨hleft, hright⟩
    · rw [hfrom, hto]
      exact ⟨hright, hleft⟩
  split
  · exact yields_failHere _
  · exact yields_failHere _
  · exact hlink

/-- A join as it is read, with the scope it leaves. -/
structure JoinRead (scope : Scope) (j : Join) (extended : Scope) : Prop where
  extended_eq : extended = scope.extend j.qualifier
  fresh : Text.lower j.qualifier ∉ scope.qualifiers.map Text.lower
  parent : ∀ p, j.parent = some p → p ∈ scope.joined
  named : "" ∉ j.names
  items_eq : j.items = []

theorem yields_join (kind : JoinKind) (scope : Scope) :
    Yields (join kind scope) fun result => JoinRead scope result.1 result.2 := by
  refine yields_currentPosition.then fun position => ?_
  refine (yields_identifier _).bind fun entity hentity => ?_
  refine yields_optionalLabel.bind fun label hlabel => ?_
  refine (yields_inScope position _).bind fun added hadd => ?_
  obtain ⟨hfresh, rfl⟩ := Scope.addJoin_eq_ok_iff.1 hadd
  refine (yields_expect _ _).then fun _ => (yields_joinLink scope _).bind fun link hlink => ?_
  obtain ⟨hparent, hfrom, hto⟩ := hlink
  refine yields_pure ⟨rfl, hfresh, hparent, ?_, rfl⟩
  simp only [Join.names, List.mem_cons, not_or]
  exact ⟨hentity.symm, hfrom.symm, hto.symm, hlabel⟩

/-- The joins of a statement as they are read, with the scope they leave. -/
structure JoinsRead (scope : Scope) (js : List Join) (final : Scope) : Prop where
  final_eq : final = scope.extendAll js
  distinct : final.Distinct
  parents : ParentsIn scope.joined js
  named : ∀ j ∈ js, "" ∉ j.names
  items_eq : ∀ j ∈ js, j.items = []

theorem joinsRead_nil {scope : Scope} (hd : scope.Distinct) : JoinsRead scope [] scope :=
  ⟨scope.extendAll_nil.symm, hd, trivial, by simp, by simp⟩

theorem yields_joinsWithin (n : Nat) {scope : Scope} (hd : scope.Distinct) :
    Yields (joinsWithin n scope) fun result => JoinsRead scope result.1 result.2 := by
  -- a join that is read extends the scope, and the qualifiers of the larger scope still differ
  induction n generalizing scope with
  | zero => exact yields_pure (joinsRead_nil hd)
  | succ n ih =>
    refine yields_joinKind.then fun kind => ?_
    split
    · exact yields_pure (joinsRead_nil hd)
    · refine (yields_join _ scope).bind fun first hfirst => ?_
      obtain ⟨j, extended⟩ := first
      obtain rfl : extended = scope.extend j.qualifier := hfirst.extended_eq
      refine (ih (hd.extend hfirst.fresh)).bind fun rest hrest => ?_
      obtain ⟨js, final⟩ := rest
      refine yields_pure ⟨?_, hrest.distinct, ⟨hfirst.parent, hrest.parents⟩, ?_, ?_⟩
      · exact hrest.final_eq.trans (Scope.extendAll_cons scope j js).symm
      · exact List.forall_mem_cons.2 ⟨hfirst.named, hrest.named⟩
      · exact List.forall_mem_cons.2 ⟨hfirst.items_eq, hrest.items_eq⟩

theorem yields_joins {scope : Scope} (hd : scope.Distinct) :
    Yields (joins scope) fun result => JoinsRead scope result.1 result.2 :=
  yields_remaining.then fun n => yields_joinsWithin n hd

/-! ## The other clauses -/

theorem yields_whereClause (scope : Scope) :
    Yields (whereClause scope) fun condition => ∀ e, condition = some e → TestsIn scope e := by
  refine (yields_eat _).then fun _ => yields_ite (fun _ => ?_) fun _ => yields_pure (by simp)
  refine yields_condition.bind fun e he => yields_pure ?_
  rintro _ ⟨⟩
  exact he

theorem yields_groupByClause (scope : Scope) :
    Yields (groupByClause scope) fun groupBy => ∀ c ∈ groupBy, InScope scope c := by
  refine (yields_eat _).then fun _ => yields_ite (fun _ => ?_) fun _ => yields_pure (by simp)
  refine (yields_expect _ _).then fun _ => ?_
  exact (yields_commaList (yields_boundColumn scope)).mono fun _ h => h.2

theorem yields_direction : Yields direction fun _ => True :=
  (yields_eat _).then fun _ => yields_ite (fun _ => yields_pure trivial) fun _ =>
    (yields_eat _).then fun _ => yields_pure trivial

/-- A sort column is bound, or it is a label and has no qualifier. -/
theorem yields_orderItem (scope : Scope) (labels : List String) :
    Yields (orderItem scope labels) fun item => InScope scope item.column := by
  refine yields_currentPosition.then fun position => yields_columnRef.bind fun column hname => ?_
  have hdirection : ∀ column, InScope scope column → Yields
      (direction >>= fun direction => pure (⟨column, direction⟩ : OrderItem))
      fun item => InScope scope item.column := fun column hcolumn =>
    yields_direction.then fun _ => yields_pure hcolumn
  refine yields_ite (fun hlabel => ?_) fun _ => ?_
  · -- a label has no qualifier, so it is in scope like a column of the root
    rw [Bool.and_eq_true, Option.isNone_iff_eq_none] at hlabel
    refine (yields_pure (Q := InScope scope) ⟨hname, fun q hq => ?_⟩).bind hdirection
    rw [hlabel.1] at hq
    simp at hq
  · refine (yields_inScope position _).bind fun bound hbound => ?_
    exact (yields_pure (inScope_of_bind hname hbound)).bind hdirection

theorem yields_orderByClause (scope : Scope) (labels : List String) :
    Yields (orderByClause scope labels) fun orderBy =>
      ∀ item ∈ orderBy, InScope scope item.column := by
  refine (yields_eat _).then fun _ => yields_ite (fun _ => ?_) fun _ => yields_pure (by simp)
  refine (yields_expect _ _).then fun _ => ?_
  exact (yields_commaList (yields_orderItem scope labels)).mono fun _ h => h.2

theorem yields_rowCount (clause : Keyword) : Yields (rowCount clause) fun _ => True := by
  refine (yields_eat _).then fun parenthesized => yields_currentKind.bind fun k _ => ?_
  split
  · split
    · refine yields_advance.then fun _ => yields_ite (fun _ => ?_) fun _ => yields_pure trivial
      exact (yields_expect _ _).then fun _ => yields_pure trivial
    · exact yields_failHere _
  · exact yields_unexpected _

theorem yields_topClause : Yields topClause fun _ => True :=
  (yields_eat _).then fun _ => yields_ite
    (fun _ => (yields_rowCount _).then fun _ => yields_pure trivial) fun _ => yields_pure trivial

theorem yields_limitClause (top : Option UInt64) : Yields (limitClause top) fun _ => True := by
  refine (yields_isAt _).then fun _ => yields_ite (fun _ => ?_) fun _ => yields_pure trivial
  refine yields_currentPosition.then fun position => yields_advance.then fun _ => ?_
  exact (yields_rowCount _).then fun _ => yields_ite (fun _ => yields_failAt _ _)
    fun _ => yields_pure trivial

theorem yields_refuse (word : Keyword) (fault : SyntaxFault) :
    Yields (refuse word fault) fun _ => True :=
  (yields_isAt _).then fun _ => yields_ite (fun _ => yields_failHere _) fun _ => yields_pure trivial

theorem yields_statementEnd : Yields statementEnd fun _ => True := by
  refine (yields_eat _).then fun _ => yields_currentKind.bind fun k _ => ?_
  have htrailing : Yields
      (fun c => .error ⟨.trailing c.current.describe, c.current.position⟩ c : Parser Unit)
      fun _ => True := by
    rintro c a c' - ⟨⟩
  cases k with
  | endOfInput => exact yields_pure trivial
  | keyword word =>
    cases word with
    | union => exact yields_failHere _
    | _ => exact htrailing
  | _ => exact htrailing

theorem yields_bindSelectList (scope : Scope) (pending : List PendingItem)
    (groupBy : List ColumnRef) (js : List Join) :
    Yields (bindSelectList scope pending groupBy js) fun result =>
      SelectList.bind scope pending groupBy js = .ok result := by
  rw [bindSelectList]
  split
  · next owned howned => exact yields_pure howned
  · rintro c a c' - ⟨⟩

/-! ## Statements -/

section Clauses

variable {s : Statement} {lenient : Bool} {pending : List PendingItem} {js : List Join}
  {scope : Scope} (hread : JoinsRead (Scope.ofSource s.source lenient) js scope)
  (hbind : SelectList.bind scope pending s.groupBy js = .ok (s.items, s.joins))

include hread

theorem JoinsRead.joined_eq : scope.joined = js.map Join.qualifier := by
  rw [hread.final_eq]
  exact List.nil_append _

theorem JoinsRead.source_eq : scope.source = s.source := by
  rw [hread.final_eq]
  rfl

include hbind

theorem JoinsRead.handedOut : SelectList.HandedOut s scope pending js :=
  SelectList.handedOut_of_bind hbind hread.items_eq hread.source_eq hread.joined_eq

/-- Handing out the items keeps the qualifiers in scope. -/
theorem JoinsRead.map_qualifier : s.joins.map Join.qualifier = scope.joined := by
  rw [hread.joined_eq]
  apply List.ext_getElem?
  intro i
  obtain ⟨items, hi⟩ := (hread.handedOut hbind).joins_eq i
  rw [List.getElem?_map, List.getElem?_map, hi, Option.map_map]
  rfl

theorem JoinsRead.refers {c : ColumnRef} (hc : InScope scope c) : s.Refers c := by
  cases hq : c.qualifier with
  | none => exact Or.inl hq
  | some q =>
    have hmem := hc.2 q hq
    rw [← hread.map_qualifier hbind] at hmem
    obtain ⟨j, hj, rfl⟩ := List.mem_map.1 hmem
    exact Or.inr ⟨j, hj, hq⟩

theorem JoinsRead.qualifiers_nodup : (s.qualifiers.map Text.lower).Nodup := by
  rw [Statement.qualifiers, hread.map_qualifier hbind, ← hread.source_eq]
  exact hread.distinct

theorem JoinsRead.parent_earlier (i : Nat) (j : Join) (p : String) (hi : s.joins[i]? = some j)
    (hp : j.parent = some p) :
    ∃ (k : Nat) (j' : Join), k < i ∧ s.joins[k]? = some j' ∧ j'.qualifier = p := by
  have hsame := (hread.handedOut hbind).joins_eq
  -- the parents were read with the joins as they were before the items were handed out
  obtain ⟨items, hitems⟩ := hsame i
  rw [hitems] at hi
  obtain ⟨j₀, hj₀, rfl⟩ := Option.map_eq_some_iff.1 hi
  obtain ⟨k, j', hlt, hk, rfl⟩ := parentsIn_nil_iff.1 hread.parents i j₀ p hj₀ hp
  obtain ⟨items', hk'⟩ := hsame k
  exact ⟨k, { j' with items := items' }, hlt, by rw [hk', hk]; rfl, rfl⟩

theorem JoinsRead.join_named (j : Join) (hj : j ∈ s.joins) : "" ∉ j.names := by
  obtain ⟨i, hi⟩ := List.mem_iff_getElem?.1 hj
  obtain ⟨items, hitems⟩ := (hread.handedOut hbind).joins_eq i
  rw [hitems] at hi
  obtain ⟨j₀, hj₀, rfl⟩ := Option.map_eq_some_iff.1 hi
  exact hread.named j₀ (List.mem_of_getElem? hj₀)

end Clauses

/-- What the clauses of a statement yield. The clauses behind the joins are read in the scope that
the joins leave, and the select list is bound in it at the end. -/
structure ClausesRead (s : Statement) (lenient : Bool) (pending : List PendingItem)
    (js : List Join) (scope : Scope) : Prop where
  source_named : "" ∉ s.source.entity :: s.source.label.toList
  pending_ne_nil : pending ≠ []
  items_read : ∀ p ∈ pending, ItemRead p
  joins_read : JoinsRead (Scope.ofSource s.source lenient) js scope
  condition_in : ∀ e, s.condition = some e → TestsIn scope e
  groupBy_in : ∀ c ∈ s.groupBy, InScope scope c
  orderBy_in : ∀ item ∈ s.orderBy, InScope scope item.column
  bound : SelectList.bind scope pending s.groupBy js = .ok (s.items, s.joins)

namespace ClausesRead

variable {s : Statement} {lenient : Bool} {pending : List PendingItem} {js : List Join}
  {scope : Scope} (hread : ClausesRead s lenient pending js scope)

include hread

theorem refers {c : ColumnRef} (hc : InScope scope c) : s.Refers c :=
  hread.joins_read.refers hread.bound hc

theorem handedOut : SelectList.HandedOut s scope pending js :=
  hread.joins_read.handedOut hread.bound

/-- The scope declares the joins in their order. -/
theorem declared_join {i : Nat} {j : Join} (hi : s.joins[i]? = some j) :
    scope.declared (.join i) = some j.qualifier := by
  rw [Scope.declared, ← hread.joins_read.map_qualifier hread.bound, List.getElem?_map, hi]
  rfl

theorem condition_columns {e : Condition} (he : s.condition = some e) {c : ColumnRef}
    (hc : c ∈ e.columns) : InScope scope c := by
  obtain ⟨t, ht, rfl⟩ := List.mem_map.1 hc
  exact (hread.condition_in e he t ht).1

/-- Every item of the statement was read, and bound to the entity that holds it. -/
theorem item_bound {item : SelectItem} {owner : Binding} (h : (item, owner) ∈ s.ownedItems) :
    ∃ p, ItemRead p ∧ SelectList.ValueBound scope p.item.value item.value owner ∧
      item.label = p.item.label := by
  obtain ⟨p, hp, hbinds, hlabel⟩ := hread.handedOut.binds _ h
  exact ⟨p, hread.items_read p hp, SelectList.valueBound_of_bindValue hbinds, hlabel⟩

theorem item_owned {item : SelectItem} {owner : Binding} (h : (item, owner) ∈ s.ownedItems) :
    item.value.OwnedBy (scope.declared owner) := by
  obtain ⟨p, -, hvalue, -⟩ := hread.item_bound h
  exact hvalue.owned

/-- An item of the statement is written as it was read. -/
theorem item_read {item : SelectItem} (h : item ∈ s.allItems) :
    ∃ p, ItemRead p ∧ item.names = p.item.names ∧ item.label = p.item.label ∧
      (∀ q, item.value = .wildcard q → ∃ q', p.item.value = .wildcard q') ∧
      ∀ call, item.value = .aggregate call → call.argument = .star →
        p.item.value = .aggregate call := by
  rw [← s.map_fst_ownedItems] at h
  obtain ⟨⟨item, owner⟩, hmem, rfl⟩ := List.mem_map.1 h
  obtain ⟨p, hp, hvalue, hlabel⟩ := hread.item_bound hmem
  refine ⟨p, hp, ?_, hlabel, hvalue.wildcard, fun call hcall hstar =>
    (hvalue.star call hcall hstar).1⟩
  rw [SelectItem.names, SelectItem.names, hvalue.names_eq, hlabel]

theorem resolved : s.Resolved where
  parent_earlier := hread.joins_read.parent_earlier hread.bound
  root_items := fun _ hitem => hread.item_owned (Statement.root_mem_ownedItems hitem)
  join_items := by
    intro j hj item hitem
    obtain ⟨i, hi⟩ := List.mem_iff_getElem?.1 hj
    rw [← hread.declared_join hi]
    exact hread.item_owned (Statement.join_mem_ownedItems hi hitem)
  condition_columns := fun _ he _ hc => hread.refers (hread.condition_columns he hc)
  groupBy_columns := fun c hc => hread.refers (hread.groupBy_in c hc)
  orderBy_columns := fun item hitem => hread.refers (hread.orderBy_in item hitem)
  items_ne_nil := by
    intro hnil
    rw [← s.map_fst_ownedItems, List.map_eq_nil_iff] at hnil
    exact hread.handedOut.ne_nil hread.pending_ne_nil hnil
  among_ne_nil := by
    rintro e he ⟨c, t⟩ ht rfl
    exact (hread.condition_in e he _ ht).2 rfl

theorem wellBound : s.WellBound where
  toResolved := hread.resolved
  qualifiers_distinct :=
    Statement.pairwise_sameName_iff.2 (hread.joins_read.qualifiers_nodup hread.bound)
  star_count := by
    intro item hitem call hcall hstar
    obtain ⟨p, hp, -, -, -, hcall'⟩ := hread.item_read hitem
    exact hp.value.star_count call (hcall' call hcall hstar) hstar
  star_root := by
    -- a star was bound to the root, and no join is the root
    intro j hj item hitem call hcall hstar
    obtain ⟨i, hi⟩ := List.mem_iff_getElem?.1 hj
    obtain ⟨p, -, hvalue, -⟩ := hread.item_bound (Statement.join_mem_ownedItems hi hitem)
    exact Binding.noConfusion (hvalue.star call hcall hstar).2
  grouped := hread.handedOut.grouped

theorem named : s.Named where
  source := hread.source_named
  joins := hread.joins_read.join_named hread.bound
  items := by
    intro item hitem
    obtain ⟨p, hp, hnames, -⟩ := hread.item_read hitem
    rw [hnames, SelectItem.names, List.mem_append, not_or]
    exact ⟨hp.value.named, hp.label⟩
  condition := fun _ he _ hc => (hread.condition_columns he hc).1
  groupBy := fun c hc => (hread.groupBy_in c hc).1
  orderBy := fun item hitem => (hread.orderBy_in item hitem).1

/-- What the clauses of a statement yield makes the statement writable. -/
theorem writable : s.Writable where
  toWellBound := hread.wellBound
  named := hread.named
  wildcard_unlabelled := by
    intro item hitem q hq
    obtain ⟨p, hp, -, hlabel, hwildcard, -⟩ := hread.item_read hitem
    obtain ⟨q', hq'⟩ := hwildcard q hq
    rw [hlabel]
    exact hp.wildcard q' hq'
  labels_distinct := hread.handedOut.labels_distinct
  labels_unselected := hread.handedOut.labels_unselected

end ClausesRead

theorem yields_statementBody (lenient : Bool) (comments : List String) :
    Yields (statementBody lenient comments) fun s => s.Writable ∧ s.comments = comments := by
  refine (yields_expect _ _).then fun _ => (yields_eat _).then fun distinct => ?_
  refine yields_topClause.then fun top => yields_selectList.bind fun pending hpending => ?_
  refine (yields_expect _ _).then fun _ => yields_source.bind fun root hroot => ?_
  have hd : (Scope.ofSource root lenient).Distinct := by
    simp [Scope.Distinct, Scope.qualifiers, Scope.ofSource]
  -- the clauses behind the joins are read in the scope that the joins leave
  refine (yields_joins hd).bind fun joined hjoined => ?_
  obtain ⟨js, scope⟩ := joined
  refine (yields_whereClause scope).bind fun condition hcondition => ?_
  refine (yields_groupByClause scope).bind fun groupBy hgroupBy => ?_
  refine (yields_refuse _ _).then fun _ => ?_
  refine (yields_orderByClause scope _).bind fun orderBy horderBy => ?_
  refine (yields_limitClause top).then fun top => yields_statementEnd.then fun _ => ?_
  refine (yields_bindSelectList scope pending groupBy js).bind fun owned howned => ?_
  refine yields_pure ⟨?_, rfl⟩
  exact ClausesRead.writable
    ⟨hroot, hpending.1, hpending.2, hjoined, hcondition, hgroupBy, horderBy, howned⟩

theorem eq_of_refuse {word : Keyword} {fault : SyntaxFault} {c c' : Cursor} {a : Unit}
    (h : refuse word fault c = .ok a c') : c' = c := by
  -- looking at a token leaves the cursor where it is
  change (if (c.current.kind == TokenKind.keyword word) = true then failHere fault
    else pure () : Parser Unit) c = _ at h
  split at h
  · cases h
  · cases h
    rfl

/-- A statement that is read has a text, and its comments are those met in front of it. -/
theorem writable_of_statement {lenient : Bool} {c c' : Cursor} {s : Statement} (hc : c.IsNamed)
    (h : statement lenient c = .ok s c') : s.Writable ∧ s.comments = c.comments := by
  rw [statement_eq] at h
  change EStateM.bind _ _ c = _ at h
  rw [EStateM.bind] at h
  split at h
  · next a c₁ hrefuse =>
    obtain rfl := eq_of_refuse hrefuse
    exact (yields_statementBody lenient c₁.comments { c₁ with comments := [] } s c' hc h).1
  · simp at h

/-- Every statement that is read has a text. -/
theorem writable_of_parse {text : String} {lenient : Bool} {s : Statement}
    (h : parse text lenient = .ok s) : s.Writable := by
  rw [parse] at h
  split at h
  · simp at h
  · next c hc =>
    split at h
    · next s' c' hs =>
      obtain rfl := Except.ok.inj h
      exact (writable_of_statement (Cursor.isNamed_ofSource hc) hs).1
    · simp at h

theorem comments_of_moveOn {current : Token} {comments : List String} {tokens : List Token}
    (hplain : ∀ t ∈ tokens, t.kind.isComment = false) {c : Cursor}
    (h : Cursor.moveOn current comments tokens = .ok () c) : c.comments = comments := by
  cases tokens with
  | nil =>
    cases h
    rfl
  | cons t tokens =>
    rw [Cursor.moveOn] at h
    split at h
    · next body hkind =>
      have ht := hplain t List.mem_cons_self
      rw [hkind] at ht
      cases ht
    · cases h
    · cases h
      rfl

/-- A statement that is read from a text without comments has none. -/
theorem comments_of_parse {text : String} {lenient : Bool} {s : Statement}
    (h : parse text lenient = .ok s)
    (hplain : ∀ t ∈ tokenize text, t.kind.isComment = false) : s.comments = [] := by
  rw [parse] at h
  split at h
  · simp at h
  · next c hc =>
    split at h
    · next s' c' hs =>
      obtain rfl := Except.ok.inj h
      rw [(writable_of_statement (Cursor.isNamed_ofSource hc) hs).2]
      rw [Cursor.ofSource, Cursor.ofTokens] at hc
      split at hc
      · next hmove =>
        obtain rfl := Except.ok.inj hc
        exact comments_of_moveOn hplain hmove
      · simp at hc
    · simp at h

/-- Every statement that is read is well bound. -/
theorem wellBound_of_parse {text : String} {lenient : Bool} {s : Statement}
    (h : parse text lenient = .ok s) : s.WellBound :=
  (writable_of_parse h).toWellBound

/-- Printing is the inverse of reading on everything that is read: in both layouts the text of
a statement is read as that statement without any option. Its comments become their lines, each
without the blanks around it. -/
theorem parse_render_of_parse {text : String} {lenient : Bool} {s : Statement}
    (h : parse text lenient = .ok s) (layout : Layout) :
    parse (render layout s) false = .ok { s with
      comments := s.comments.flatMap fun comment => (Text.lines comment).map Text.trim } :=
  parse_render (writable_of_parse h) layout

/-- A text that leaves out the qualifiers of root columns next to a join. -/
def ownersText : String :=
  "/* accounts\n and owners */ select top 5 name, U.[Full Name] n from account a " ++
    "left join user u on u.id = a.owner where x not in ('it''s') order by n desc"

/-- The statement of `ownersText`. -/
def owners : Statement where
  comments := ["accounts\n and owners"]
  distinct := false
  top := some 5
  items := [⟨.column ⟨none, "name"⟩, none⟩]
  source := ⟨"account", some "a"⟩
  joins := [⟨"user", some "u", .outer, none, "owner", "id",
    [⟨.column ⟨some "u", "Full Name"⟩, some "n"⟩]⟩]
  condition := some (.not (.test ⟨none, "x"⟩ (.among [.text "it's"])))
  groupBy := []
  orderBy := [⟨⟨none, "n"⟩, .descending⟩]

theorem parse_ownersText : parse ownersText true = .ok owners := by
  decide +kernel

theorem wellBound_owners : parse ownersText true = .ok owners ∧ owners.WellBound :=
  ⟨parse_ownersText, wellBound_of_parse parse_ownersText⟩

theorem parse_render_owners :
    parse ownersText true = .ok owners ∧
      parse (render .compact owners) false =
        .ok { owners with comments := ["accounts", "and owners"] } := by
  refine ⟨parse_ownersText, ?_⟩
  rw [parse_render_of_parse parse_ownersText]
  decide +kernel

end FetchQuery.Sql
