import FetchQuery.Proofs.Fetch.LinkNesting
import FetchQuery.Proofs.Sql.Accepted

/-!
# What is read back from FetchXML

The FetchXML of every statement that is read from SQL is read again, whatever its indentation.
The condition comes back with the same filter (`read_condition_of_parse`). The joins are written
as links, each directly inside the link of its parent, and come back depth first
(`read_joins_of_parse`). A query without aggregates keeps its select items, and there is a warning
for every join that has the name of the root entity, and no other (`read_plain_of_parse`).

The items of an aggregate query come back with labels, and with the grouping columns that were
not selected (`Statement.KeepsAggregates`). This fails for one call only: a count of the distinct
values of the primary key comes back as a distinct count of rows (`read_aggregates_of_parse`,
`keyValues_not_kept`).
-/

set_option autoImplicit false

namespace FetchQuery

open JoinForest

/-- A join without its select items. -/
def Join.bare (j : Join) : Join :=
  { j with items := [] }

/-- A query without aggregates that has the root, the select items and the limits of another. -/
structure Statement.KeepsPlain (s t : Statement) : Prop where
  distinct : t.distinct = s.distinct
  top : t.top = s.top
  entity : t.source.entity = s.source.entity
  items : t.items = s.items
  groupBy : t.groupBy = []
  join_items : ∀ j ∈ s.joins, (t.join? j.qualifier).map Join.items = some j.items

/-- What an item of an aggregate query may come back as. -/
inductive ComesBackAs (owner : Option String) (entity : String) : SelectItem → SelectItem → Prop
  /-- A column loses a label that repeats its name. -/
  | column (c : ColumnRef) (label : Option String) :
    ComesBackAs owner entity ⟨.column c, label⟩ ⟨.column c, label.filter (· != c.name)⟩
  /-- A call without a label gets its default label. -/
  | aggregate (call : AggregateCall) (label : Option String) :
    ComesBackAs owner entity ⟨.aggregate call, label⟩
      ⟨.aggregate call, some (label.getD (call.defaultLabel entity))⟩
  /-- A count of the primary key of the root counts rows. -/
  | keyCount (howner : owner = none) (label : Option String) :
    ComesBackAs owner entity ⟨.aggregate ⟨.count, .column ⟨none, entity ++ "id"⟩, false⟩, label⟩
      ⟨.aggregate ⟨.count, .star, false⟩,
        some (label.getD
          (AggregateCall.defaultLabel ⟨.count, .column ⟨none, entity ++ "id"⟩, false⟩ entity))⟩

/-- The items of an entity come back in order, followed by its grouping columns that are not
selected. -/
def Statement.KeepsItems (s : Statement) (owner : Option String) (entity : String)
    (items back : List SelectItem) : Prop :=
  ∃ kept, List.Forall₂ (ComesBackAs owner entity) items kept ∧
    back = kept ++ (s.groupBy.filter fun c =>
      c.qualifier = owner ∧ ∀ item ∈ s.allItems, item.value ≠ .column c).map fun c =>
        ⟨.column c, none⟩

/-- An aggregate query that has the select items and grouping columns of another. -/
structure Statement.KeepsAggregates (s t : Statement) : Prop where
  items : s.KeepsItems none s.source.entity s.items t.items
  join_items : ∀ j ∈ s.joins, ∃ back, t.join? j.qualifier = some back ∧
    s.KeepsItems (some j.qualifier) j.entity j.items back.items
  groupBy : ∀ c, c ∈ t.groupBy ↔ c ∈ s.groupBy

namespace Fetch

open Xml

/-! ## The condition -/

/-- The condition of a statement comes back, with the same filter. -/
theorem read_condition_of_parse {text : String} {lenient : Bool} {s : Statement}
    (h : Sql.parse text lenient = .ok s) (indent : Nat) :
    ∃ t warnings, read (render indent s) = .ok ⟨t, warnings⟩ ∧
      t.condition.isSome = s.condition.isSome ∧
      t.condition.map (Filter.lower · false) = s.condition.map (Filter.lower · false) := by
  have hs := Sql.writable_of_parse h
  obtain ⟨condition, hread, hlower⟩ := exists_read_render hs.toWellBound indent
  refine ⟨_, _, hread, ?_, hlower⟩
  have hsome := congrArg Option.isSome hlower
  rwa [Option.isSome_map, Option.isSome_map] at hsome

/-- A text with a comment, a condition under a negation, values that need escapes, and numbers. -/
def rangesText : String :=
  "-- a -- b\nSELECT b.n FROM b JOIN s ON s.id = b.s " ++
    "WHERE NOT (b.k IN ('<\"', '') OR s.m IS NULL) AND " ++
    "(b.c BETWEEN -1.50 AND 2.5 OR NOT b.n LIKE '&%')"

/-- The statement of `rangesText`. -/
def ranges : Statement where
  comments := ["a -- b"]
  distinct := false
  top := none
  items := [⟨.column ⟨none, "n"⟩, none⟩]
  source := ⟨"b", none⟩
  joins := [⟨"s", none, .inner, none, "s", "id", []⟩]
  condition := some (.binary .and
    (.not (.binary .or
      (.test ⟨none, "k"⟩ (.among [.text "<\"", .text ""]))
      (.test ⟨some "s", "m"⟩ (.null true))))
    (.binary .or
      (.test ⟨none, "c"⟩ (.between
        (.number ⟨true, 150, 2, by decide, by decide, by decide⟩)
        (.number ⟨false, 25, 1, by decide, by decide, by decide⟩)))
      (.not (.test ⟨none, "n"⟩ (.like "&%")))))
  groupBy := []
  orderBy := []

theorem parse_rangesText : Sql.parse rangesText false = .ok ranges := by
  decide +kernel

theorem read_condition_ranges :
    Sql.parse rangesText false = .ok ranges ∧
      ∃ t warnings, read (render 2 ranges) = .ok ⟨t, warnings⟩ ∧
        t.condition.isSome = ranges.condition.isSome ∧
        t.condition.map (Filter.lower · false) = ranges.condition.map (Filter.lower · false) :=
  ⟨parse_rangesText, read_condition_of_parse parse_rangesText 2⟩

/-! ## The joins -/

/-- The joins of a statement stand below an element as nested links, in the given order. -/
structure NestedAs (s : Statement) (order : List Join) (e : Element) : Prop where
  /-- Every join is listed once. -/
  perm : order.Perm s.joins
  /-- Every join is followed by the joins below it, and siblings keep their order. -/
  depthFirst : DepthFirst s.joins (childrenOf s.joins none) order
  /-- There is one link for each join, directly inside the element of its parent. -/
  links : List.Forall₂ (StatesJoin s) order (linksWithin e)

/-- The joins of a statement are written as nested links and come back in the order of these,
from which they are nested again as they were. -/
theorem read_joins_of_parse {text : String} {lenient : Bool} {s : Statement}
    (h : Sql.parse text lenient = .ok s) (indent : Nat) :
    ∃ document t warnings order,
      Document.parse (render indent s) = .ok document ∧ NestedAs s order document.root ∧
      read (render indent s) = .ok ⟨t, warnings⟩ ∧
      t.joins.map Join.bare = order.map Join.bare ∧
      ∃ again, Document.parse (render indent t) = .ok again ∧
        nesting again.root = nesting document.root := by
  have hs := (Sql.writable_of_parse h).toWellBound
  obtain ⟨condition, hread, -⟩ := exists_read_render hs indent
  have hnested : NestedAs s (nestedJoins s)
      (Node.rootElement indent "fetch" (fetchAttributes s) [entityNode s]) :=
    ⟨preorder_perm hs.isForest, depthFirst_preorder hs.isForest, forall₂_linksWithin s indent⟩
  -- what comes back has other comments than the returned statement, which do not matter for links
  let t : Statement := { returned s condition with comments := returnedComments s }
  have hlength : (returned s condition).joins.length = s.joins.length := length_joins_returned hs
  have hlinks : linkNodes t t.joins.length none = linkNodes s s.joins.length none := by
    rw [linkNodes_comments, linkNodes_returned hs]
    exact congrArg (linkNodes s · none) hlength
  refine ⟨_, t, _, nestedJoins s, parse_render s indent, hnested, hread, ?_,
    _, parse_render t indent, ?_⟩
  · exact List.map_map
  · have hsource : t.source.entity = s.source.entity := rfl
    exact nesting_eq hsource hlinks indent

/-- A text with joins off two branches, of which the first goes on behind the second. -/
def branchesText : String :=
  "SELECT a.n FROM a JOIN b ON b.x = a.x LEFT JOIN c ON c.x = a.y " ++
    "JOIN d ON d.x = b.z JOIN e f ON f.x = d.w"

/-- The statement of `branchesText`. -/
def branches : Statement where
  comments := []
  distinct := false
  top := none
  items := [⟨.column ⟨none, "n"⟩, none⟩]
  source := ⟨"a", none⟩
  joins := [
    ⟨"b", none, .inner, none, "x", "x", []⟩,
    ⟨"c", none, .outer, none, "y", "x", []⟩,
    ⟨"d", none, .inner, some "b", "z", "x", []⟩,
    ⟨"e", some "f", .inner, some "d", "w", "x", []⟩]
  condition := none
  groupBy := []
  orderBy := []

theorem parse_branchesText : Sql.parse branchesText false = .ok branches := by
  decide +kernel

theorem read_joins_branches :
    Sql.parse branchesText false = .ok branches ∧
      ∃ document t warnings order,
        Document.parse (render 2 branches) = .ok document ∧
        NestedAs branches order document.root ∧
        read (render 2 branches) = .ok ⟨t, warnings⟩ ∧
        t.joins.map Join.bare = order.map Join.bare ∧
        ∃ again, Document.parse (render 2 t) = .ok again ∧
          nesting again.root = nesting document.root :=
  ⟨parse_branchesText, read_joins_of_parse parse_branchesText 2⟩

/-! ## Queries without aggregates -/

section Plain

variable {s : Statement} (hplain : s.isAggregate = false)

include hplain

theorem groupBy_eq_nil_of_plain : s.groupBy = [] := by
  rw [List.eq_nil_iff_forall_not_mem]
  intro c hc
  rw [s.isAggregate_iff.2 (Or.inl ⟨c, hc⟩)] at hplain
  cases hplain

/-- An item comes back as it was. -/
theorem returnedItem_of_plain (hs : s.Writable) {h : Holder} (hh : h ∈ s.holders)
    {item : SelectItem} (hitem : item ∈ h.items) :
    returnedItem s h.owner h.entity item = item := by
  have hmem : item ∈ s.allItems := Statement.mem_allItems.2 ⟨h, hh, hitem⟩
  have howned := hs.owned hh hitem
  obtain ⟨c | call | q, label⟩ := item
  · simp [returnedItem, hplain]
  · rw [s.isAggregate_iff.2 (Or.inr ⟨_, hmem, rfl⟩)] at hplain
    cases hplain
  · have hlabel : label = none := hs.wildcard_unlabelled _ hmem q rfl
    have hq : q = h.owner := howned
    rw [hlabel, hq]
    rfl

theorem returnedItems_of_plain (hs : s.Writable) {h : Holder} (hh : h ∈ s.holders) :
    returnedItems s h.owner h.entity h.items = h.items := by
  have hunselected : unselectedColumns s h.owner = [] := by
    rw [unselectedColumns, groupBy_eq_nil_of_plain hplain]
    rfl
  rw [returnedItems, hunselected, List.map_nil, List.append_nil]
  have hitems := List.map_congr_left fun item hitem => returnedItem_of_plain hplain hs hh hitem
  exact hitems.trans (List.map_id h.items)

end Plain

/-- A query without aggregates comes back with its items, and with one warning for each join that
has the name of the root entity. -/
theorem read_plain_of_parse {text : String} {lenient : Bool} {s : Statement}
    (h : Sql.parse text lenient = .ok s) (hplain : s.isAggregate = false) (indent : Nat) :
    ∃ t, read (render indent s) = .ok ⟨t,
        (s.joins.filter fun j => j.qualifier == s.source.entity).map fun j =>
          .repeatedQualifier j.qualifier⟩ ∧
      s.KeepsPlain t := by
  have hs := Sql.writable_of_parse h
  obtain ⟨condition, hread, -⟩ := exists_read_render hs.toWellBound indent
  -- the warnings come in the order of the links, which is that of the joins for one qualifier
  rw [rootWarnings_eq, nestedJoins, filter_qualifier_preorder_eq hs.isForest] at hread
  refine ⟨_, hread, rfl, rfl, rfl, ?_, ?_, ?_⟩
  · exact returnedItems_of_plain hplain hs s.root_mem_holders
  · change insertColumns [] (groupedColumns s _) = []
    rw [groupedColumns, hplain]
    rfl
  · intro j hj
    have hjoin := join?_returned hs.toWellBound condition hj
    have hitems := returnedItems_of_plain hplain hs (Statement.join_mem_holders hj)
    exact (congrArg (Option.map Join.items) hjoin).trans (congrArg some hitems)

/-- A text with a limit, labels and a join that has the name of the root entity. -/
def namesakesText : String :=
  "SELECT DISTINCT TOP 3 a.name AS n, account.* FROM account a " ++
    "LEFT JOIN account ON account.accountid = a.parentid"

/-- The statement of `namesakesText`. -/
def namesakes : Statement where
  comments := []
  distinct := true
  top := some 3
  items := [⟨.column ⟨none, "name"⟩, some "n"⟩]
  source := ⟨"account", some "a"⟩
  joins := [⟨"account", none, .outer, none, "parentid", "accountid",
    [⟨.wildcard (some "account"), none⟩]⟩]
  condition := none
  groupBy := []
  orderBy := []

theorem parse_namesakesText : Sql.parse namesakesText false = .ok namesakes := by
  decide +kernel

theorem read_plain_namesakes :
    Sql.parse namesakesText false = .ok namesakes ∧ namesakes.isAggregate = false ∧
      ∃ t, read (render 2 namesakes) = .ok ⟨t, [.repeatedQualifier "account"]⟩ ∧
        namesakes.KeepsPlain t :=
  ⟨parse_namesakesText, by decide, read_plain_of_parse parse_namesakesText (by decide) 2⟩

/-! ## Aggregate queries -/

theorem unselectedColumns_eq (s : Statement) (owner : Option String) :
    unselectedColumns s owner = s.groupBy.filter fun c =>
      c.qualifier = owner ∧ ∀ item ∈ s.allItems, item.value ≠ .column c := by
  rw [unselectedColumns, List.filter_filter]
  apply List.filter_congr
  intro c _
  rw [Bool.eq_iff_iff]
  simp [← SelectItem.selects_iff, and_comm]

section Aggregate

variable {s : Statement} (hs : s.WellBound)

/-- What comes back for an entity keeps its items if each of them is kept. -/
theorem keepsItems_returnedItems_iff {owner : Option String} {entity : String}
    {items : List SelectItem} :
    s.KeepsItems owner entity items (returnedItems s owner entity items) ↔
      ∀ item ∈ items, ComesBackAs owner entity item (returnedItem s owner entity item) := by
  have hall : List.Forall₂ (ComesBackAs owner entity) items
      (items.map (returnedItem s owner entity)) ↔
        ∀ item ∈ items, ComesBackAs owner entity item (returnedItem s owner entity item) := by
    rw [List.forall₂_map_right_iff, List.forall₂_same]
  rw [← hall, Statement.KeepsItems, ← unselectedColumns_eq, returnedItems]
  constructor
  · rintro ⟨kept, hkept, hback⟩
    rwa [List.append_cancel_right hback]
  · intro hkept
    exact ⟨_, hkept, rfl⟩

include hs

/-- Every item is kept, except for a count of the distinct values of the primary key. -/
theorem comesBackAs_returnedItem_iff (haggregate : s.isAggregate = true) {h : Holder}
    (hh : h ∈ s.holders) {item : SelectItem} (hitem : item ∈ h.items) :
    ComesBackAs h.owner h.entity item (returnedItem s h.owner h.entity item) ↔
      ¬(h.owner = none ∧
        item.value = .aggregate ⟨.count, .column ⟨none, h.entity ++ "id"⟩, true⟩) := by
  obtain ⟨c | call | q, label⟩ := item
  · refine iff_of_true ?_ (by simp)
    rw [returnedItem]
    simp only [haggregate, if_true]
    exact .column c label
  · rcases returnedCall_cases hs hh hitem with hsame | ⟨howner, distinct, rfl, hrows⟩
    · refine iff_of_true ?_ ?_
      · rw [returnedItem]
        simp only [hsame]
        exact .aggregate call label
      · rintro ⟨howner, hvalue⟩
        obtain rfl := SelectValue.aggregate.inj hvalue
        simp [returnedCall, howner, AggregateCall.attributeName] at hsame
    · simp only [returnedItem, hrows]
      cases distinct with
      | false => exact iff_of_true (.keyCount howner label) (by simp)
      | true =>
        -- a distinct count of rows is neither the call that was written nor a plain count
        refine iff_of_false ?_ (not_not.2 ⟨howner, rfl⟩)
        intro hkept
        cases hkept
  · have hmem := Statement.mem_allItems.2 ⟨h, hh, hitem⟩
    exact absurd rfl ((hs.grouped haggregate _ hmem).1 q)

/-- What comes back for a join keeps its items. -/
theorem keepsItems_join (haggregate : s.isAggregate = true) {j : Join} (hj : j ∈ s.joins) :
    s.KeepsItems (some j.qualifier) j.entity j.items (returnedJoin s j).items := by
  refine keepsItems_returnedItems_iff.2 fun item hitem => ?_
  have hh := Statement.join_mem_holders hj
  exact (comesBackAs_returnedItem_iff hs haggregate hh hitem).2 (by simp)

/-- What comes back for the root keeps its items, unless the distinct values of its primary key are
counted. -/
theorem keepsItems_root_iff (haggregate : s.isAggregate = true) :
    s.KeepsItems none s.source.entity s.items (returnedItems s none s.source.entity s.items) ↔
      ∀ item ∈ s.items, item.value ≠
        .aggregate ⟨.count, .column ⟨none, s.source.entity ++ "id"⟩, true⟩ := by
  rw [keepsItems_returnedItems_iff]
  refine forall₂_congr fun item hitem => ?_
  have hkept := comesBackAs_returnedItem_iff hs haggregate s.root_mem_holders hitem
  simpa using hkept

theorem exists_read_aggregates (haggregate : s.isAggregate = true) (indent : Nat) :
    ∃ t warnings, read (render indent s) = .ok ⟨t, warnings⟩ ∧
      (s.KeepsAggregates t ↔ ∀ item ∈ s.items, item.value ≠
        .aggregate ⟨.count, .column ⟨none, s.source.entity ++ "id"⟩, true⟩) := by
  obtain ⟨condition, hread, -⟩ := exists_read_render hs indent
  refine ⟨_, _, hread, ?_⟩
  rw [← keepsItems_root_iff hs haggregate]
  constructor
  · exact fun hkeeps => hkeeps.items
  · intro hitems
    refine ⟨hitems, fun j hj => ?_, fun c => mem_groupBy_returned hs condition⟩
    exact ⟨_, join?_returned hs condition hj, keepsItems_join hs haggregate hj⟩

end Aggregate

/-- An aggregate query comes back with its items and grouping columns exactly if it does not count
the distinct values of the primary key of the root. -/
theorem read_aggregates_of_parse {text : String} {lenient : Bool} {s : Statement}
    (h : Sql.parse text lenient = .ok s) (haggregate : s.isAggregate = true) (indent : Nat) :
    ∃ t warnings, read (render indent s) = .ok ⟨t, warnings⟩ ∧
      (s.KeepsAggregates t ↔ ∀ item ∈ s.items, item.value ≠
        .aggregate ⟨.count, .column ⟨none, s.source.entity ++ "id"⟩, true⟩) :=
  exists_read_aggregates (Sql.writable_of_parse h).toWellBound haggregate indent

/-- A text with a label that repeats a name, a count of the primary key, a distinct sum of a join
and a grouping column that is not selected. -/
def totalsText : String :=
  "SELECT s.kind AS kind, COUNT(a.aid), SUM(DISTINCT s.cost) t, COUNT(*) n " ++
    "FROM a JOIN s ON s.id = a.s GROUP BY s.kind, a.b"

/-- The statement of `totalsText`. -/
def totals : Statement where
  comments := []
  distinct := false
  top := none
  items := [⟨.aggregate ⟨.count, .column ⟨none, "aid"⟩, false⟩, none⟩,
    ⟨.aggregate ⟨.count, .star, false⟩, some "n"⟩]
  source := ⟨"a", none⟩
  joins := [⟨"s", none, .inner, none, "s", "id",
    [⟨.column ⟨some "s", "kind"⟩, some "kind"⟩,
      ⟨.aggregate ⟨.sum, .column ⟨some "s", "cost"⟩, true⟩, some "t"⟩]⟩]
  condition := none
  groupBy := [⟨some "s", "kind"⟩, ⟨none, "b"⟩]
  orderBy := []

theorem parse_totalsText : Sql.parse totalsText false = .ok totals := by
  decide +kernel

theorem read_aggregates_totals :
    Sql.parse totalsText false = .ok totals ∧ totals.isAggregate = true ∧
      ∃ t warnings, read (render 2 totals) = .ok ⟨t, warnings⟩ ∧ totals.KeepsAggregates t := by
  have haggregate : totals.isAggregate = true := by decide
  obtain ⟨t, warnings, hread, hkeeps⟩ := read_aggregates_of_parse parse_totalsText haggregate 2
  exact ⟨parse_totalsText, haggregate, t, warnings, hread, hkeeps.2 (by decide)⟩

/-- A text that counts the distinct values of the primary key in every group. -/
def keyValuesText : String :=
  "SELECT industry, COUNT(DISTINCT accountid) AS n FROM account GROUP BY industry"

/-- The statement of `keyValuesText`. -/
def keyValues : Statement where
  comments := []
  distinct := false
  top := none
  items := [⟨.column ⟨none, "industry"⟩, none⟩,
    ⟨.aggregate ⟨.count, .column ⟨none, "accountid"⟩, true⟩, some "n"⟩]
  source := ⟨"account", none⟩
  joins := []
  condition := none
  groupBy := [⟨none, "industry"⟩]
  orderBy := []

/-- The distinct values of the primary key come back as a distinct count of rows. -/
theorem keyValues_not_kept :
    Sql.parse keyValuesText false = .ok keyValues ∧ keyValues.isAggregate = true ∧
      ∀ indent, ¬∃ t warnings, read (render indent keyValues) = .ok ⟨t, warnings⟩ ∧
        keyValues.KeepsAggregates t := by
  have hparse : Sql.parse keyValuesText false = .ok keyValues := by
    decide +kernel
  have haggregate : keyValues.isAggregate = true := by decide
  refine ⟨hparse, haggregate, ?_⟩
  rintro indent ⟨t, warnings, hread, hkeeps⟩
  obtain ⟨t', warnings', hread', hiff⟩ :=
    exists_read_aggregates (Sql.writable_of_parse hparse).toWellBound haggregate indent
  rw [hread] at hread'
  obtain ⟨rfl, -⟩ := Reading.mk.inj (Except.ok.inj hread')
  exact hiff.1 hkeeps _ (List.mem_cons_of_mem _ List.mem_cons_self) rfl

end Fetch

end FetchQuery
