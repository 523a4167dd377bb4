import FetchQuery.Proofs.SortOrder
import FetchQuery.Proofs.Sql.SortClause

/-!
# Sort columns with a qualifier

A sort column that is written with a qualifier names a column of one entity, and no label. The
statement keeps the qualifiers of joins and drops that of the root, and what is left of a column of
the root is a plain name, which is a label first. So the order element of a query without
aggregates sorts by the column that was written exactly if it belongs to a join, or if no other
column has its name as a label (`qualifiedSort_iff`); a column of the root whose name is the label
of another column is sorted by as that other column (`accountName_hidden`).
-/

set_option autoImplicit false

namespace FetchQuery

namespace Fetch

open Xml Xml.Node

/-- An order element that names a column by its attribute and entity. -/
def SortsBy (e : Element) (column : ColumnRef) : Prop :=
  e.attr? "attribute" = some column.name ∧ e.attr? "entityname" = column.qualifier

instance (e : Element) (column : ColumnRef) : Decidable (SortsBy e column) :=
  inferInstanceAs (Decidable (_ ∧ _))

theorem SortsBy.unique {e : Element} {c c' : ColumnRef} (h : SortsBy e c) (h' : SortsBy e c') :
    c = c' := by
  obtain ⟨qualifier, name⟩ := c
  obtain ⟨qualifier', name'⟩ := c'
  obtain rfl : name = name' := Option.some.inj (h.1.symm.trans h'.1)
  obtain rfl : qualifier = qualifier' := h.2.symm.trans h'.2
  rfl

/-! ## Order elements -/

/-- The order element of a sort column. -/
def orderElement (s : Statement) (item : OrderItem) : Element where
  name := "order"
  attributes := (SortKey.ofOrder s item).attributes ++
    [("descending", match item.direction with
      | .descending => "true"
      | .ascending => "false")]
  children := []
  text := ""

theorem sortsBy_orderElement {s : Statement} {item : OrderItem} {c : ColumnRef}
    (h : SortKey.ofOrder s item = .column c.qualifier c.name) :
    SortsBy (orderElement s item) c := by
  obtain ⟨_ | q, name⟩ := c <;>
    simp [SortsBy, Element.attr?, orderElement, h, SortKey.attributes]

/-- The order elements of a written document are those of the sort columns, one by one. -/
theorem map_snd_orders {s : Statement} {indent : Nat} {entity : Element}
    (hentity : IsEntityOf s indent entity) :
    (orders entity).map Prod.snd = s.orderBy.map (orderElement s) := by
  let f (_ : Option String) (x : Element) : List Element := if x.name = "order" then [x] else []
  have hother : ∀ q x, x.name ≠ "order" → f q x = [] := fun q x hx => if_neg hx
  have hcollect : (orders entity).map Prod.snd =
      (entityContents entity).flatMap fun p => f p.1.qualifier p.2 := by
    rw [orders, ← List.filterMap_eq_map, List.filterMap_filter, List.filterMap_eq_flatMap_toList]
    apply List.flatMap_congr
    intro p _
    by_cases hname : p.2.name = "order" <;> simp [hname, f]
  rw [hcollect, flatMap_orders hother hentity, orderElements, flatMap_elements_map,
    List.map_eq_flatMap]
  apply List.flatMap_congr
  intro item _
  rw [orderNode, elements_leaf, List.flatMap_singleton]
  exact if_pos rfl

section Plain

variable {s : Statement} (hs : s.Writable) (hplain : s.isAggregate = false)

include hs hplain in
/-- In a query without aggregates, only columns have labels. -/
theorem column_of_label {item : SelectItem} (hitem : item ∈ s.allItems) {label : String}
    (hlabel : item.label = some label) : ∃ c, item.value = .column c := by
  cases hvalue : item.value with
  | column c => exact ⟨c, rfl⟩
  | aggregate call =>
    rw [s.isAggregate_iff.2 (.inr ⟨item, hitem, by rw [SelectItem.isAggregate, hvalue]⟩)] at hplain
    cases hplain
  | wildcard owner =>
    rw [hs.wildcard_unlabelled item hitem owner hvalue] at hlabel
    cases hlabel

include hplain

theorem ofOrder_joined (q name : String) (direction : Direction) :
    SortKey.ofOrder s ⟨⟨some q, name⟩, direction⟩ = .column (some q) name := by
  rw [SortKey.ofOrder_of_unlabelled (by simp), SortKey.ofColumn_of_plain (by simp [hplain])]

theorem ofOrder_unlabelled {name : String}
    (h : ∀ item ∈ s.allItems, item.label ≠ some name) (direction : Direction) :
    SortKey.ofOrder s ⟨⟨none, name⟩, direction⟩ = .column none name := by
  have hnone : s.labelled? name = none := by
    rw [Statement.labelled?, List.find?_eq_none]
    intro item hitem hlabel
    exact h item hitem (eq_of_beq hlabel)
  rw [SortKey.ofOrder_of_unlabelled fun _ => hnone, SortKey.ofColumn_of_plain (by simp [hplain])]

include hs

/-- A plain name that is a label stands for the column with that label. -/
theorem ofOrder_labelled {item : SelectItem} (hitem : item ∈ s.allItems) {name : String}
    (hlabel : item.label = some name) {c : ColumnRef} (hvalue : item.value = .column c)
    (direction : Direction) :
    SortKey.ofOrder s ⟨⟨none, name⟩, direction⟩ = .column c.qualifier c.name := by
  rw [SortKey.ofOrder_of_labelled (hs.labelled?_eq hitem hlabel), SortKey.ofLabelled, hvalue,
    hplain]
  rfl

/-- What the order element of a column sorts by. -/
theorem sortsBy_iff (owner : Option String) (name : String) (direction : Direction) :
    (SortsBy (orderElement s ⟨⟨owner, name⟩, direction⟩) ⟨owner, name⟩ ↔
        (owner = none → ∀ item ∈ s.allItems, item.label = some name →
          item.value = .column ⟨none, name⟩)) ∧
      (owner = none → ∀ item ∈ s.allItems, item.label = some name →
        ∃ c, item.value = .column c ∧
          SortsBy (orderElement s ⟨⟨owner, name⟩, direction⟩) c) := by
  cases owner with
  | some q =>
    have hsorts := sortsBy_orderElement (c := ⟨some q, name⟩)
      (ofOrder_joined hplain q name direction)
    exact ⟨iff_of_true hsorts (by simp), by simp⟩
  | none =>
    -- a label comes first, even if the column was written with the qualifier of the root
    have hlabelled : ∀ item ∈ s.allItems, item.label = some name →
        ∃ c, item.value = .column c ∧
          SortsBy (orderElement s ⟨⟨none, name⟩, direction⟩) c := by
      intro item hitem hlabel
      obtain ⟨c, hvalue⟩ := column_of_label hs hplain hitem hlabel
      have hkey := ofOrder_labelled hs hplain hitem hlabel hvalue direction
      exact ⟨c, hvalue, sortsBy_orderElement hkey⟩
    refine ⟨⟨?_, ?_⟩, fun _ => hlabelled⟩
    · intro hsorts _ item hitem hlabel
      obtain ⟨c, hvalue, hsorts'⟩ := hlabelled item hitem hlabel
      rw [hvalue, hsorts.unique hsorts']
    · intro hown
      by_cases hlabel : ∃ item ∈ s.allItems, item.label = some name
      · obtain ⟨item, hitem, hlabel⟩ := hlabel
        have hvalue := hown rfl item hitem hlabel
        exact sortsBy_orderElement (ofOrder_labelled hs hplain hitem hlabel hvalue direction)
      · refine sortsBy_orderElement (c := ⟨none, name⟩) (ofOrder_unlabelled hplain ?_ direction)
        exact fun item hitem hsame => hlabel ⟨item, hitem, hsame⟩

end Plain

end Fetch

open Fetch

/-- What becomes of a sort column that is written with a qualifier: its order element sorts by the
column that the qualifier names, unless it is a column of the root and its name is the label of
another column; and then it sorts by that other column. -/
def SortedFrom (s : Statement) (written : ColumnRef) (e : Xml.Element) : Prop :=
  ∀ q, written.qualifier = some q →
    (∃ owner, s.Names q owner) ∧ ∀ owner, s.Names q owner →
      (SortsBy e ⟨owner, written.name⟩ ↔
        (owner = none → ∀ item ∈ s.allItems, item.label = some written.name →
          item.value = .column ⟨none, written.name⟩)) ∧
      (owner = none → ∀ item ∈ s.allItems, item.label = some written.name →
        ∃ c, item.value = .column c ∧ SortsBy e c)

/-- In a query without aggregates, the order elements are those of the sort columns of the text, and
one that is written with a qualifier is sorted by as it is written exactly if no label hides it. -/
theorem qualifiedSort_iff {text : String} {lenient : Bool} {s : Statement}
    (h : Sql.parse text lenient = .ok s) (hplain : s.isAggregate = false) (indent : Nat) :
    ∃ entity, rootEntity? (Fetch.render indent s) = some entity ∧
      List.Forall₂ (fun written p => SortedFrom s written p.2) (sortColumns text)
        (orders entity) := by
  have hs := Sql.writable_of_parse h
  obtain ⟨entity, hroot, hentity⟩ := exists_isEntityOf s indent
  refine ⟨entity, ?_, ?_⟩
  · rw [rootEntity?, Fetch.parse_render]
    simp [hentity.childrenNamed hroot]
  · -- the order elements and the sort columns of the text both follow those of the statement
    refine (List.forall₂_map_right_iff (R := SortedFrom s) (f := Prod.snd)).1 ?_
    rw [map_snd_orders hentity, List.forall₂_map_right_iff]
    refine (Sql.orderBy_of_parse h).imp ?_
    rintro written ⟨column, direction⟩ hcolumn q hq
    obtain ⟨owner, hnames, rfl⟩ := hcolumn q hq
    refine ⟨⟨owner, hnames⟩, fun owner' hnames' => ?_⟩
    obtain rfl := hnames.unique hs.toWellBound hnames'
    exact sortsBy_iff hs hplain owner written.name direction

/-- A text that is sorted by columns of both entities, whatever the letter case of their
qualifiers. -/
def ownedAccounts : String :=
  "select a.name n, u.city from account a join user u on u.id = a.owner " ++
    "order by A.city desc, U.name, n"

/-- The statement of `ownedAccounts`. -/
def ownedAccountsStatement : Statement where
  comments := []
  distinct := false
  top := none
  items := [⟨.column ⟨none, "name"⟩, some "n"⟩]
  source := ⟨"account", some "a"⟩
  joins := [⟨"user", some "u", .inner, none, "owner", "id", [⟨.column ⟨some "u", "city"⟩, none⟩]⟩]
  condition := none
  groupBy := []
  orderBy := [⟨⟨none, "city"⟩, .descending⟩, ⟨⟨some "u", "name"⟩, .ascending⟩,
    ⟨⟨none, "n"⟩, .ascending⟩]

theorem ownedAccounts_sorted :
    Sql.parse ownedAccounts false = .ok ownedAccountsStatement ∧
      ownedAccountsStatement.isAggregate = false ∧
      sortColumns ownedAccounts = [⟨some "A", "city"⟩, ⟨some "U", "name"⟩, ⟨none, "n"⟩] ∧
      ∃ entity first second rest,
        rootEntity? (Fetch.render 2 ownedAccountsStatement) = some entity ∧
        orders entity = first :: second :: rest ∧ SortsBy first.2 ⟨none, "city"⟩ ∧
        SortsBy second.2 ⟨some "u", "name"⟩ := by
  have hparse : Sql.parse ownedAccounts false = .ok ownedAccountsStatement := by decide +kernel
  have hplain : ownedAccountsStatement.isAggregate = false := by decide
  have hcolumns : sortColumns ownedAccounts =
      [⟨some "A", "city"⟩, ⟨some "U", "name"⟩, ⟨none, "n"⟩] := by decide +kernel
  refine ⟨hparse, hplain, hcolumns, ?_⟩
  obtain ⟨entity, hentity, hsorted⟩ := qualifiedSort_iff hparse hplain 2
  rw [hcolumns] at hsorted
  obtain ⟨first, rest, hfirst, hsorted, horders⟩ := List.forall₂_cons_left_iff.1 hsorted
  obtain ⟨second, rest, hsecond, -, rfl⟩ := List.forall₂_cons_left_iff.1 hsorted
  refine ⟨entity, first, second, rest, hentity, horders, ?_, ?_⟩
  · have hnames : ownedAccountsStatement.Names "A" none := by decide +kernel
    exact (((hfirst "A" rfl).2 none hnames).1).2 (by decide)
  · have hnames : ownedAccountsStatement.Names "U" (some "u") := by decide +kernel
    exact (((hsecond "U" rfl).2 (some "u") hnames).1).2 (by simp)

/-- A text that shows cities under the label `name`, in the order of the names. -/
def accountNames : String :=
  "SELECT city AS name FROM account ORDER BY account.name"

/-- The column of the root that is written is hidden by the label. -/
theorem accountName_hidden :
    sortColumns accountNames = [⟨some "account", "name"⟩] ∧
      Sql.parse accountNames false = .ok cityAsNameStatement ∧
      cityAsNameStatement.isAggregate = false ∧
      cityAsNameStatement.Names "account" none ∧
      ((rootEntity? (Fetch.render 0 cityAsNameStatement)).map fun entity =>
        (orders entity).map fun p => decide (SortsBy p.2 ⟨none, "city"⟩)) = some [true] := by
  refine ⟨?_, ?_, ?_, ?_, ?_⟩ <;> decide +kernel

end FetchQuery
