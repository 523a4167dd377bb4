import FetchQuery.Proofs.Sql.PlainText
import FetchQuery.Proofs.Sql.ReadingJoins

/-!
# The text of a statement is read as the statement

The text of a resolved statement is read as nothing but the statement, with the trimmed lines of
its comments as comments, and it is refused only if the statement is not writable
(`parse_render_cases`). So the text of every writable statement is read back under the default
options, in both layouts (`parse_render`). A statement without items is written with a star, so
what is read is the statement with the star (`Statement.spelled`).

The clauses are followed in their order. Columns are bound to what they were, because they carry
the qualifiers of their entities, and these differ as soon as the joins have been read.
-/

set_option autoImplicit false

namespace FetchQuery

/-- The entities of a statement as a scope with the default options. -/
def Statement.scope (s : Statement) : Scope :=
  (Scope.ofSource s.source false).extendAll s.joins

/-- A statement as its text spells it: without any items it is written with a star. -/
def Statement.spelled (s : Statement) : Statement :=
  if s.allItems.isEmpty then { s with items := [⟨.wildcard none, none⟩] } else s

theorem Statement.spelled_eq_self {s : Statement} (h : s.allItems ≠ []) : s.spelled = s := by
  rw [spelled, if_neg (by simpa using h)]

theorem Statement.spelled_of_empty {s : Statement} (h : s.allItems = []) :
    s.spelled = { s with items := [⟨.wildcard none, none⟩] } := by
  rw [spelled, if_pos (by simpa using h)]

/-- The spelling changes nothing but the items of the root. -/
theorem Statement.exists_spelled_eq (s : Statement) : ∃ items, s.spelled = { s with items } := by
  rw [spelled]
  split
  · exact ⟨_, rfl⟩
  · exact ⟨s.items, rfl⟩

@[simp]
theorem Statement.joins_spelled (s : Statement) : s.spelled.joins = s.joins := by
  obtain ⟨items, hspelled⟩ := s.exists_spelled_eq
  rw [hspelled]

@[simp]
theorem Statement.condition_spelled (s : Statement) : s.spelled.condition = s.condition := by
  obtain ⟨items, hspelled⟩ := s.exists_spelled_eq
  rw [hspelled]

@[simp]
theorem Statement.groupBy_spelled (s : Statement) : s.spelled.groupBy = s.groupBy := by
  obtain ⟨items, hspelled⟩ := s.exists_spelled_eq
  rw [hspelled]

@[simp]
theorem Statement.orderBy_spelled (s : Statement) : s.spelled.orderBy = s.orderBy := by
  obtain ⟨items, hspelled⟩ := s.exists_spelled_eq
  rw [hspelled]

/-- No wildcard has a label. -/
def Statement.PlainWildcards (s : Statement) : Prop :=
  ∀ item ∈ s.allItems, ∀ owner, item.value = .wildcard owner → item.label = none

theorem Statement.joined_scope (s : Statement) :
    s.scope.joined = s.joins.map Join.qualifier :=
  List.nil_append _

namespace Sql

variable {good : Prop}

theorem rootQualifier_eq (s : Statement) : rootQualifier s = s.scope.rootName := by
  rw [rootQualifier, Scope.rootName, s.joined_scope, List.isEmpty_map]
  rfl

theorem distinct_scope {s : Statement} (hs : s.WellBound) : s.scope.Distinct := by
  have hlist : s.scope.qualifiers = s.qualifiers := by
    rw [Scope.qualifiers, s.joined_scope]
    rfl
  rw [Scope.Distinct, hlist]
  exact Statement.pairwise_sameName_iff.1 hs.qualifiers_distinct

section Resolved

variable {s : Statement} (hs : s.Resolved) (hd : s.scope.Distinct)

include hs in
theorem parentsIn_joins : ParentsIn [] s.joins :=
  parentsIn_nil_iff.2 hs.parent_earlier

include hd in
/-- A column that refers to an entity of the statement is bound to itself. -/
theorem rebinds_of_refers {c : ColumnRef} (hc : s.Refers c) :
    Rebinds s.scope (rootQualifier s) c := by
  rw [rootQualifier_eq]
  obtain ⟨q, name⟩ := c
  rcases hc with rfl | ⟨j, hj, rfl⟩
  · exact ⟨.root, s.scope.bind_written_root name⟩
  · have hmem : j.qualifier ∈ s.scope.joined := by
      rw [s.joined_scope]
      exact List.mem_map_of_mem hj
    obtain ⟨i, hi⟩ := List.mem_iff_getElem?.1 hmem
    exact ⟨.join i, Scope.bind_written_joined hd hi name⟩

include hs hd

theorem readable_condition {e : Condition} (he : s.condition = some e) :
    Readable s.scope (rootQualifier s) e := by
  intro t ht
  refine ⟨rebinds_of_refers hd (hs.condition_columns e he t.1 (List.mem_map_of_mem ht)), ?_⟩
  have hne := hs.among_ne_nil e he t ht
  cases htest : t.2 with
  | among values =>
    rintro rfl
    exact hne htest
  | compare => trivial
  | null => trivial
  | between => trivial
  | like => trivial

/-- Every item is bound to its owner from how it is written. -/
theorem bindValue_ownedItems {p : SelectItem × Binding} (hp : p ∈ s.ownedItems) :
    SelectList.bindValue s.scope (writtenValue (rootQualifier s) p.1.value) =
      .ok (p.1.value, p.2) := by
  rw [rootQualifier_eq]
  rcases List.mem_append.1 hp with hp | hp
  · obtain ⟨item, hitem, rfl⟩ := List.mem_map.1 hp
    exact bindValue_writtenValue_root s.scope (hs.root_items item hitem)
  · obtain ⟨⟨j, i⟩, hj, hp⟩ := List.mem_flatMap.1 hp
    obtain ⟨item, hitem, rfl⟩ := List.mem_map.1 hp
    have hi : s.joins[i]? = some j := List.mem_zipIdx_iff_getElem?.1 hj
    refine bindValue_writtenValue_joined hd ?_
      (hs.join_items j (List.mem_of_getElem? hi) item hitem) _
    rw [s.joined_scope, List.getElem?_map, hi]
    rfl

end Resolved

/-! ## Clauses -/

theorem reads_rowCount (n : UInt64) (clause : Keyword) (rest : List Lexeme) :
    Reads good (rowCount clause) [Lexeme.ofDigits (rowCountText n).toList] rest (· = n) := by
  refine Reads.bind_look (reads_eat_false (by simp)) ?_
  rintro _ rfl
  refine reads_currentKind_bind (k := .number (rowCountText n)) (by simp) ?_
  simp only [rowCount?_rowCountText]
  refine (reads_advance _ rest).bind_nil fun _ _ => ?_
  exact reads_pure rfl

theorem reads_topClause (top : Option UInt64) {rest : List Lexeme}
    (hrest : nextKind rest ≠ some (.keyword .top)) :
    Reads good topClause (topLexemes top) rest (· = top) := by
  cases top with
  | none =>
    refine (reads_eat_false hrest).bind_nil ?_
    rintro _ rfl
    exact reads_pure rfl
  | some n =>
    refine Reads.bind_cons (reads_eatKeyword .top) ?_
    rintro _ rfl
    refine (reads_rowCount n .top rest).bind_nil ?_
    rintro _ rfl
    exact reads_pure rfl

/-- The lexeme of the end of the input. -/
def endLexeme : Lexeme :=
  ⟨.endOfInput, []⟩

theorem opens_orderBy (s : Statement) :
    Opens [.keyword .order, .endOfInput] (orderByLexemes s ++ [endLexeme]) := by
  rw [orderByLexemes]
  split
  · exact opens_cons (by decide)
  · exact opens_cons (by decide)

theorem opens_groupBy (s : Statement) :
    Opens [.keyword .group, .keyword .order, .endOfInput]
      (groupByLexemes s ++ (orderByLexemes s ++ [endLexeme])) := by
  rw [groupByLexemes]
  split
  · exact (opens_orderBy s).mono (by decide)
  · exact opens_cons (by decide)

theorem opens_where (s : Statement) :
    Opens joinsEnds
      (whereLexemes s ++ (groupByLexemes s ++ (orderByLexemes s ++ [endLexeme]))) := by
  rw [whereLexemes]
  split
  · exact opens_cons (by decide)
  · exact (opens_groupBy s).mono (by decide)

theorem valueLexemes_cons (root : Option String) (value : SelectValue) :
    (∃ name ls, valueLexemes root value = Lexeme.ofName name :: ls) ∨
      ∃ ls, valueLexemes root value = Lexeme.ofSymbol .star :: ls := by
  cases value with
  | column c => exact Or.inl (columnLexemes_cons root c)
  | aggregate call => exact Or.inl ⟨_, _, rfl⟩
  | wildcard owner =>
    rw [valueLexemes]
    cases owner.or root with
    | none => exact Or.inr ⟨[], rfl⟩
    | some q => exact Or.inl ⟨q, _, rfl⟩

theorem reads_direction (d : Direction) (rest : List Lexeme) :
    Reads good direction [Lexeme.ofKeyword (directionKeyword d)] rest (· = d) := by
  cases d with
  | descending =>
    refine (reads_eatKeyword .desc).bind_nil ?_
    rintro _ rfl
    exact reads_pure rfl
  | ascending =>
    refine Reads.bind_look (reads_eat_false (by simp [directionKeyword])) ?_
    rintro _ rfl
    exact (reads_eatKeyword .asc).bind_nil fun _ _ => reads_pure rfl

theorem contains_labels (s : Statement) (name : String) :
    (s.allItems.filterMap SelectItem.label).contains name = (s.labelled? name).isSome := by
  rw [Statement.labelled?, Bool.eq_iff_iff, List.contains_iff_mem, List.mem_filterMap,
    List.find?_isSome]
  simp only [beq_iff_eq]

/-- Written items are read as a select list. The first token decides whether there is a list, and
it is a name or a star. -/
theorem reads_selectList (root : Option String) {items : List SelectItem} (hne : items ≠ [])
    (hstar : good → ∀ item ∈ items, ∀ call, item.value = .aggregate call →
      call.argument = .star → call.function = .count ∧ call.distinct = false)
    (hwild : ∀ item ∈ items, ∀ owner, item.value = .wildcard owner → item.label = none)
    {rest : List Lexeme} (hrest : Opens [.keyword .from] rest) :
    Reads good selectList (commaLexemes (items.map (itemLexemes root))) rest
      (List.Forall₂ (WrittenAs root) items) := by
  have hlist : Reads good (commaList selectItem) (commaLexemes (items.map (itemLexemes root))) rest
      (List.Forall₂ (WrittenAs root) items) := by
    refine reads_commaList (fun next => ∃ k ∈ itemEnds, next = some k) ⟨_, by decide, rfl⟩
      (hrest.mono (by decide)) (hrest.ne (by decide)) hne fun item hitem r hr => ?_
    exact reads_selectItem _ (fun hg => hstar hg item hitem) (hwild item hitem) hr
  obtain ⟨item, items, rfl⟩ := List.exists_cons_of_ne_nil hne
  rw [List.map_cons, commaLexemes_cons, itemLexemes] at hlist ⊢
  rcases valueLexemes_cons root item.value with ⟨name, ls, hls⟩ | ⟨ls, hls⟩
  · rw [hls, List.cons_append, List.cons_append] at hlist ⊢
    apply reads_of_name
    intro hname
    refine reads_currentKind_bind (k := .identifier name) ?_ hlist
    rw [List.cons_append, nextKind_cons, Lexeme.ofName_kind hname]
  · rw [hls, List.cons_append, List.cons_append] at hlist ⊢
    exact reads_currentKind_bind (k := .symbol .star) rfl hlist

theorem nextKind_selectList (root : Option String) {items : List SelectItem} (hne : items ≠ [])
    (rest : List Lexeme) (k : Keyword) :
    nextKind (commaLexemes (items.map (itemLexemes root)) ++ rest) ≠ some (.keyword k) := by
  obtain ⟨item, items, rfl⟩ := List.exists_cons_of_ne_nil hne
  rw [List.map_cons, commaLexemes_cons, itemLexemes]
  rcases valueLexemes_cons root item.value with ⟨name, ls, hls⟩ | ⟨ls, hls⟩
  · have hname : (Lexeme.ofName name).kind ≠ .keyword k :=
      Lexeme.kind_ofName_ne name (by simp) (by simp)
    simpa [hls] using hname
  · simp [hls]

section Clauses

variable {s : Statement} (hs : s.Resolved) (hd : s.scope.Distinct)

include hs hd

theorem reads_whereClause :
    Reads good (whereClause s.scope) (whereLexemes s)
      (groupByLexemes s ++ (orderByLexemes s ++ [endLexeme])) (· = s.condition) := by
  have hrest := opens_groupBy s
  rw [whereLexemes]
  cases he : s.condition with
  | none =>
    refine (reads_eat_false (hrest.ne (by decide))).bind_nil ?_
    rintro _ rfl
    exact reads_pure rfl
  | some e =>
    refine Reads.bind_cons (reads_eatKeyword .where) ?_
    rintro _ rfl
    have hends : EndsOperand 1
        (nextKind (groupByLexemes s ++ (orderByLexemes s ++ [endLexeme]))) := by
      intro op _
      cases op <;> exact hrest.ne (by decide)
    refine (reads_condition (readable_condition hs hd he) hends).bind_nil ?_
    rintro _ rfl
    exact reads_pure rfl

theorem reads_groupByClause :
    Reads good (groupByClause s.scope) (groupByLexemes s) (orderByLexemes s ++ [endLexeme])
      (· = s.groupBy) := by
  have hrest := opens_orderBy s
  rw [groupByLexemes]
  split
  · next hempty =>
    refine (reads_eat_false (hrest.ne (by decide))).bind_nil ?_
    rintro _ rfl
    exact reads_pure (List.isEmpty_iff.1 hempty).symm
  · next hne =>
    refine Reads.bind_cons (reads_eatKeyword .group) ?_
    rintro _ rfl
    refine Reads.bind_cons (reads_expectKeyword .by) fun _ _ => ?_
    refine reads_commaList_eq (· ≠ some (.symbol .dot)) (by simp) (hrest.ne (by decide))
      (hrest.ne (by decide)) (by simpa using hne) fun c hc r hr => ?_
    exact reads_boundColumn (rebinds_of_refers hd (hs.groupBy_columns c hc)) hr

theorem reads_orderItem {item : OrderItem} (hitem : item ∈ s.orderBy) {rest : List Lexeme} :
    Reads good (orderItem s.scope (s.allItems.filterMap SelectItem.label)) (orderLexemes s item)
      rest (· = item) := by
  apply reads_currentPosition_bind
  intro position
  have hdirection : ∀ column, column = item.column → Reads good
      (direction >>= fun direction => pure (⟨column, direction⟩ : OrderItem))
      [Lexeme.ofKeyword (directionKeyword item.direction)] rest (· = item) := by
    rintro _ rfl
    refine (reads_direction item.direction rest).bind_nil ?_
    rintro _ rfl
    exact reads_pure rfl
  have hdot : nextKind ([Lexeme.ofKeyword (directionKeyword item.direction)] ++ rest) ≠
      some (.symbol .dot) := by simp
  rw [orderLexemes]
  split
  · -- the name of a label is kept as it is and not bound
    next hlabel =>
    rw [Bool.and_eq_true, Option.isNone_iff_eq_none] at hlabel
    refine (reads_columnRef none ⟨none, item.column.name⟩ hdot).bind ?_
    rintro _ rfl
    have hcolumn : written none ⟨none, item.column.name⟩ = item.column := by
      rw [written, ← hlabel.1, Option.or_self]
    refine reads_if_pos ?_ (Reads.bind_look (reads_pure hcolumn) hdirection)
    rw [Bool.and_eq_true, contains_labels]
    exact ⟨rfl, hlabel.2⟩
  · -- any other column is bound, even where its written form has no qualifier
    next hlabel =>
    refine (reads_columnRef (rootQualifier s) item.column hdot).bind ?_
    rintro _ rfl
    obtain ⟨owner, howner⟩ := rebinds_of_refers hd (hs.orderBy_columns item hitem)
    refine reads_if_neg ?_ ?_
    · rw [Bool.and_eq_true, contains_labels]
      rintro ⟨hnone, hsome⟩
      rw [Option.isNone_iff_eq_none, written, Option.or_eq_none_iff] at hnone
      have hsome' : (s.labelled? item.column.name).isSome = true := hsome
      exact hlabel (by simp [hnone.1, hsome'])
    · rw [howner]
      refine Reads.bind_look (reads_pure (Q := (· = (item.column, owner))) rfl) ?_
      rintro _ rfl
      exact Reads.bind_look (reads_pure (Q := (· = item.column)) rfl) hdirection

theorem reads_orderByClause :
    Reads good (orderByClause s.scope (s.allItems.filterMap SelectItem.label)) (orderByLexemes s)
      [endLexeme] (· = s.orderBy) := by
  rw [orderByLexemes]
  split
  · next hempty =>
    refine (reads_eat_false (by simp [endLexeme])).bind_nil ?_
    rintro _ rfl
    exact reads_pure (List.isEmpty_iff.1 hempty).symm
  · next hne =>
    refine Reads.bind_cons (reads_eatKeyword .order) ?_
    rintro _ rfl
    refine Reads.bind_cons (reads_expectKeyword .by) fun _ _ => ?_
    exact reads_commaList_eq (fun _ => True) trivial trivial (by simp [endLexeme])
      (by simpa using hne) fun item hitem _ _ => reads_orderItem hs hd hitem

end Clauses

theorem reads_statementEnd : Reads good statementEnd [] [endLexeme] fun _ => True := by
  refine Reads.bind_look (reads_eat_false (by simp [endLexeme])) fun _ _ => ?_
  exact reads_currentKind_bind (k := .endOfInput) rfl (reads_pure trivial)

theorem reads_limitClause (top : Option UInt64) :
    Reads good (limitClause top) [] [endLexeme] (· = top) :=
  reads_isAt_ne_bind (by simp [endLexeme]) (reads_pure rfl)

theorem reads_refuse {word : Keyword} (fault : SyntaxFault) {rest : List Lexeme}
    (h : nextKind rest ≠ some (.keyword word)) :
    Reads good (refuse word fault) [] rest fun _ => True :=
  reads_isAt_ne_bind h (reads_pure trivial)

/-! ## Statements -/

/-- A statement behind the comments in front of it. -/
def statementBody (lenient : Bool) (comments : List String) : Parser Statement := do
  expectKeyword .select .select
  let distinct ← eatKeyword .distinct
  let top ← topClause
  let pending ← selectList
  expectKeyword .from .source
  let source ← source
  let (joins, scope) ← joins (Scope.ofSource source lenient)
  let condition ← whereClause scope
  let groupBy ← groupByClause scope
  refuse .having .having
  let orderBy ← orderByClause scope (pending.filterMap fun p => p.item.label)
  let top ← limitClause top
  statementEnd
  let (items, joins) ← bindSelectList scope pending groupBy joins
  pure ⟨comments, distinct, top, items, source, joins, condition, groupBy, orderBy⟩

theorem statement_eq (lenient : Bool) :
    statement lenient =
      (refuse .with .commonTableExpression >>= fun _ =>
        takeComments >>= fun comments => statementBody lenient comments) :=
  rfl

/-- The pending items of a statement are bound to the items that its owners hold. -/
theorem binds_ownedItems {s : Statement} (hs : s.Resolved) (hd : s.scope.Distinct)
    {pending : List PendingItem}
    (h : List.Forall₂ (WrittenAs (rootQualifier s)) s.allItems pending) :
    List.Forall₂ (SelectList.Binds s.scope) pending s.ownedItems := by
  have hvalue : ∀ p ∈ s.ownedItems, SelectList.bindValue s.scope
      (writtenValue (rootQualifier s) p.1.value) = .ok (p.1.value, p.2) :=
    fun p hp => bindValue_ownedItems hs hd hp
  rw [← s.map_fst_ownedItems, List.forall₂_map_left_iff] at h
  -- the induction runs along both lists, so the statement is forgotten here
  generalize s.ownedItems = owned at h hvalue
  induction h with
  | nil => exact .nil
  | cons hitem _ ih =>
    refine .cons ⟨?_, ?_⟩ (ih fun p hp => hvalue p (List.mem_cons_of_mem _ hp))
    · rw [hitem]
      exact hvalue _ List.mem_cons_self
    · rw [hitem]

theorem filterMap_label_pending {root : Option String} {items : List SelectItem}
    {pending : List PendingItem} (h : List.Forall₂ (WrittenAs root) items pending) :
    (pending.filterMap fun p => p.item.label) = items.filterMap SelectItem.label := by
  induction h with
  | nil => rfl
  | cons hitem _ ih => rw [List.filterMap_cons, List.filterMap_cons, hitem, ih]

theorem opens_joins (s : Statement) :
    Opens joinEnds (s.joins.flatMap (joinLexemes s.source.qualifier) ++
      (whereLexemes s ++ (groupByLexemes s ++ (orderByLexemes s ++ [endLexeme])))) := by
  cases s.joins with
  | nil => exact (opens_where s).mono (by decide)
  | cons j joins =>
    rw [List.flatMap_cons, joinLexemes]
    cases j.kind <;> exact opens_cons (by decide)

/-- The items of a statement are handed to its owners again, unless the select list breaks a
rule. -/
theorem reads_bindSelectList {s : Statement} {pending : List PendingItem}
    (hbinds : List.Forall₂ (SelectList.Binds s.scope) pending s.ownedItems) {rest : List Lexeme} :
    Reads s.Writable (bindSelectList s.scope pending s.groupBy (SelectList.emptied s.joins)) [] rest
      (· = (s.items, s.joins)) := by
  rw [bindSelectList]
  split
  · next owned howned =>
    exact reads_pure (SelectList.eq_of_bind_ownedItems hbinds howned)
  · -- the select list of a writable statement would have been accepted
    next e herror =>
    refine reads_of_error (fun hw => ?_) fun c => ⟨_, _, rfl⟩
    rw [SelectList.bind_ownedItems hw rfl hbinds] at herror
    simp at herror

/-- Lexemes that are read as the select list of a statement: the pending items carry its labels,
and they are bound to its items as soon as the qualifiers are known to differ. -/
structure ListReads (s : Statement) (list : List Lexeme) : Prop where
  plain : Plain s.Writable list
  not_keyword : ∀ rest k, nextKind (list ++ rest) ≠ some (.keyword k)
  reads : ∀ {rest : List Lexeme}, Opens [.keyword .from] rest →
    Reads s.Writable selectList list rest fun pending =>
      (s.scope.Distinct → List.Forall₂ (SelectList.Binds s.scope) pending s.ownedItems) ∧
        (pending.filterMap fun p => p.item.label) = s.allItems.filterMap SelectItem.label

theorem listReads_selectList {s : Statement} (hs : s.Resolved) (hwild : s.PlainWildcards) :
    ListReads s (selectListLexemes s) := by
  have hne := hs.items_ne_nil
  have hplain : Plain s.Writable (selectListLexemes s) := plain_selectList hs fun hw => hw.named
  rw [selectListLexemes, if_neg (by simpa using hne)] at hplain ⊢
  refine ⟨hplain, nextKind_selectList _ hne, fun hrest => ?_⟩
  refine (reads_selectList _ hne (fun hw => hw.star_count) hwild hrest).mono
    fun pending hpending => ?_
  exact ⟨fun hd => binds_ownedItems hs hd hpending, filterMap_label_pending hpending⟩

/-- A star alone is read as the wildcard of the root, also beside joins. -/
theorem listReads_star {s : Statement} (hitems : s.items = [⟨.wildcard none, none⟩])
    (hjoins : ∀ j ∈ s.joins, j.items = []) : ListReads s [Lexeme.ofSymbol .star] := by
  have howned : s.ownedItems = [(⟨.wildcard none, none⟩, .root)] := by
    have hjoined : (s.joins.zipIdx.flatMap fun p => p.1.items.map (·, Binding.join p.2)) = [] := by
      rw [List.flatMap_eq_nil_iff]
      intro p hp
      rw [hjoins p.1 (List.fst_mem_of_mem_zipIdx hp), List.map_nil]
    rw [Statement.ownedItems, hitems, hjoined]
    rfl
  have hall : s.allItems = [⟨.wildcard none, none⟩] := by
    rw [← s.map_fst_ownedItems, howned]
    rfl
  refine ⟨by simp, by simp, fun hrest => ?_⟩
  have hlist : Reads s.Writable selectList
      (commaLexemes ([⟨.wildcard none, none⟩].map (itemLexemes none))) _ _ :=
    reads_selectList none (by simp) (by simp) (by simp) hrest
  refine hlist.mono fun pending hpending => ?_
  rw [howned, hall]
  cases hpending with
  | cons hitem hnil =>
    cases hnil
    refine ⟨fun _ => .cons ⟨?_, ?_⟩ .nil, ?_⟩
    · rw [hitem]
      rfl
    · rw [hitem]
    · rw [List.filterMap_cons, List.filterMap_cons, hitem]
      rfl

/-- The lexemes of a statement with the given lexemes as its select list. -/
def clausesWith (list : List Lexeme) (s : Statement) : List Lexeme :=
  (Lexeme.ofKeyword .select :: ((if s.distinct then [Lexeme.ofKeyword .distinct] else []) ++
    (topLexemes s.top ++ list))) ++ (sourceLexemes s.source ++
      (s.joins.flatMap (joinLexemes s.source.qualifier) ++
        (whereLexemes s ++ (groupByLexemes s ++ orderByLexemes s))))

/-- The clauses of a resolved statement are read as the statement, if they are read. -/
theorem reads_statementBody {s : Statement} (hs : s.Resolved) {list : List Lexeme}
    (hlist : ListReads s list) (comments : List String) :
    Reads s.Writable (statementBody false comments) (clausesWith list s) [endLexeme]
      (· = { s with comments }) := by
  have hselect := hlist.not_keyword
  rw [clausesWith, List.cons_append, List.append_assoc, List.append_assoc]
  refine Reads.bind_cons (reads_expectKeyword .select) fun _ _ => ?_
  refine (reads_eatKeyword_if s.distinct fun _ => ?_).bind ?_
  · cases s.top with
    | none => simpa [topLexemes] using hselect _ .distinct
    | some n => simp [topLexemes]
  rintro _ rfl
  refine (reads_topClause s.top ?_).bind ?_
  · simpa using hselect _ .top
  rintro _ rfl
  refine (hlist.reads (opens_cons (by decide))).bind ?_
  rintro pending ⟨hbinds, hlabels⟩
  rw [hlabels]
  refine Reads.bind_cons (reads_expectKeyword .from) fun _ _ => ?_
  refine (reads_source s.source ?_).bind ?_
  · simpa using opens_joins s
  rintro _ rfl
  have hroot : (Scope.ofSource s.source false).Distinct := by
    simp [Scope.Distinct, Scope.qualifiers, Scope.ofSource]
  refine (reads_joins hroot (fun hw => distinct_scope hw.toWellBound)
    (parentsIn_joins hs) ?_).bind ?_
  · simpa using opens_where s
  -- from here on the qualifiers are known to differ, also if the statement is not writable
  rintro _ ⟨rfl, hd⟩
  have hwhere : Reads s.Writable (whereClause s.scope) (whereLexemes s)
      (groupByLexemes s ++ (orderByLexemes s ++ [endLexeme])) (· = s.condition) :=
    reads_whereClause hs hd
  rw [← List.append_assoc] at hwhere
  refine hwhere.bind ?_
  rintro _ rfl
  refine (reads_groupByClause hs hd).bind ?_
  rintro _ rfl
  refine Reads.bind_look (reads_refuse _ ((opens_orderBy s).ne (by decide))) fun _ _ => ?_
  refine (reads_orderByClause hs hd).bind_nil ?_
  rintro _ rfl
  refine (reads_limitClause s.top).bind_nil ?_
  rintro _ rfl
  refine reads_statementEnd.bind_nil fun _ _ => ?_
  refine (reads_bindSelectList (hbinds hd)).bind_nil ?_
  rintro _ rfl
  exact reads_pure rfl

theorem plain_clausesWith {strict : Prop} {list : List Lexeme} {s : Statement} :
    Plain strict (clausesWith list s) ↔ Plain strict list ∧ Plain strict (clausesWith [] s) := by
  simp only [clausesWith, plain_append, plain_cons, plain_nil]
  tauto

/-- The text of a statement has the clauses of what it spells, and a select list that is read. -/
theorem exists_listReads {s : Statement} (hs : s.spelled.Resolved) (hwild : s.PlainWildcards) :
    ∃ list, clauseLexemes s = clausesWith list s.spelled ∧ ListReads s.spelled list := by
  by_cases hempty : s.allItems = []
  · obtain ⟨hroot, hjoins⟩ := List.append_eq_nil_iff.1 hempty
    rw [Statement.spelled_of_empty hempty]
    refine ⟨[Lexeme.ofSymbol .star], ?_, listReads_star rfl (List.flatMap_eq_nil_iff.1 hjoins)⟩
    -- neither the statement nor its spelling has a label that a sort column could name
    have hlabels : ∀ name, Statement.labelled? { s with items := [⟨.wildcard none, none⟩] } name =
        s.labelled? name := by
      intro name
      rw [Statement.labelled?, Statement.labelled?, hempty, Statement.allItems]
      simp only [hjoins]
      rfl
    have horder : orderLexemes s = orderLexemes { s with items := [⟨.wildcard none, none⟩] } := by
      funext item
      rw [orderLexemes, orderLexemes, hlabels]
      rfl
    have hlist : selectListLexemes s = [Lexeme.ofSymbol .star] := by
      rw [selectListLexemes, if_pos (by simpa using hempty)]
    rw [clauseLexemes, selectLexemes, hlist, orderByLexemes, horder]
    rfl
  · rw [Statement.spelled_eq_self hempty] at hs ⊢
    exact ⟨selectListLexemes s, rfl, listReads_selectList hs hwild⟩

/-- Behind comments a cursor stands on the first plain token, the comments collected. -/
theorem moveOn_comments {bodies : List String} {l : Lexeme} {ls : List Lexeme}
    (hl : l.kind.isPlain = true) (hplain : Plain good (l :: ls)) {tokens : List Token}
    (h : tokens.map Token.lexeme = bodies.map ofComment ++ l :: ls) (current : Token)
    (comments : List String) :
    ∃ c, Cursor.moveOn current comments tokens = .ok () c ∧ Sees good c (l :: ls) ∧
      c.comments = comments ++ bodies := by
  induction bodies generalizing tokens comments with
  | nil =>
    cases tokens with
    | nil => simp at h
    | cons t tokens =>
      obtain ⟨ht, htokens⟩ := List.cons.inj h
      have hkind : t.kind.isPlain = true := by
        rw [show t.kind = l.kind from congrArg Lexeme.kind ht]
        exact hl
      refine ⟨⟨t, tokens, comments⟩, ?_, ⟨?_, hkind, hplain⟩, (List.append_nil _).symm⟩
      · rw [Cursor.moveOn]
        split
        · next hk => simp [hk, TokenKind.isPlain] at hkind
        · next hk => simp [hk, TokenKind.isPlain] at hkind
        · rfl
      · have hkinds := congrArg (List.map Lexeme.kind) h
        simpa [Function.comp_def, Token.lexeme] using hkinds
  | cons body bodies ih =>
    cases tokens with
    | nil => simp at h
    | cons t tokens =>
      obtain ⟨ht, htokens⟩ := List.cons.inj h
      have hkind : t.kind = .comment body := congrArg Lexeme.kind ht
      obtain ⟨c, hc, hsees, hcomments⟩ := ih htokens (comments ++ [body])
      refine ⟨c, ?_, hsees, by rw [hcomments, List.append_assoc]; rfl⟩
      rw [Cursor.moveOn]
      simp only [hkind]
      exact hc

/-- The text of a statement puts a cursor in front of its clauses. -/
theorem ofSource_render {s : Statement} {ls : List Lexeme}
    (hls : clauseLexemes s ++ [endLexeme] = Lexeme.ofKeyword .select :: ls)
    (hplain : Plain good (Lexeme.ofKeyword .select :: ls)) (layout : Layout) :
    ∃ c, Cursor.ofSource (render layout s) = .ok c ∧
      Sees good c (Lexeme.ofKeyword .select :: ls) ∧ c.comments = commentLines s := by
  have htokens := map_lexeme_tokenize (render layout s)
  rw [lexemes_render, statementLexemes, List.append_assoc, ← endLexeme, hls] at htokens
  obtain ⟨c, hc, hsees, hcomments⟩ := moveOn_comments rfl hplain htokens
    ⟨.endOfInput, "", Position.start⟩ []
  refine ⟨c, ?_, hsees, by rw [hcomments, List.nil_append]⟩
  rw [Cursor.ofSource, Cursor.ofTokens, hc]

/-- The text of a resolved statement is read as the statement it spells, in both layouts, except
that its comments are now the trimmed lines of what they were; or that statement is not writable
and the text is refused. -/
theorem parse_render_cases {s : Statement} (hs : s.spelled.Resolved) (hwild : s.PlainWildcards)
    (layout : Layout) :
    parse (render layout s) false = .ok { s.spelled with comments := commentLines s } ∨
      ¬s.spelled.Writable ∧ ∃ e, parse (render layout s) false = .error e := by
  obtain ⟨list, hlexemes, hlist⟩ := exists_listReads hs hwild
  have hplain : Plain s.spelled.Writable (clausesWith list s.spelled ++ [endLexeme]) := by
    refine plain_append.2 ⟨plain_clausesWith.2 ⟨hlist.plain, ?_⟩, ?_⟩
    · exact (plain_clausesWith.1 (plain_clauses hs fun hw => hw.named)).2
    · rw [plain_cons]
      exact ⟨⟨rfl, fun _ => rfl⟩, plain_nil⟩
  obtain ⟨c, hc, hsees, hcomments⟩ := ofSource_render (by rw [hlexemes]; rfl) hplain layout
  have hwith : nextKind (clausesWith list s.spelled ++ [endLexeme]) ≠ some (.keyword .with) := by
    simp [clausesWith]
  have hrefuse : Reads s.spelled.Writable (refuse .with .commonTableExpression) []
      (clausesWith list s.spelled ++ [endLexeme]) fun _ => True := reads_refuse _ hwith
  rw [parse, hc]
  rcases hrefuse c (by simp) hsees with
    ⟨_, c₁, hrefuse, -, hsees₁, hcomments₁⟩ | ⟨hwritable, e, c₁, hrefuse⟩
  · -- the comments are taken off the cursor before the clauses are read
    have hstatement : statement false c =
        statementBody false (commentLines s) { c₁ with comments := [] } := by
      rw [statement_eq, ← hcomments, ← hcomments₁]
      change EStateM.bind _ _ c = _
      rw [EStateM.bind, hrefuse]
      rfl
    simp only [hstatement]
    rcases reads_statementBody hs hlist (commentLines s) { c₁ with comments := [] } (by simp)
      ⟨hsees₁.kinds_eq, hsees₁.current_plain, hsees₁.clean⟩ with
        ⟨result, c₂, hbody, rfl, -⟩ | ⟨hwritable, e, c₂, hbody⟩
    · rw [hbody]
      exact Or.inl rfl
    · rw [hbody]
      exact Or.inr ⟨hwritable, e, rfl⟩
  · refine Or.inr ⟨hwritable, e, ?_⟩
    have hstatement : statement false c = .error e c₁ := by
      rw [statement_eq]
      change EStateM.bind _ _ c = _
      rw [EStateM.bind, hrefuse]
    simp only [hstatement]

/-- The text of a legible statement is read as the statement itself, if it is read. -/
theorem parse_render_legible {s : Statement} (hs : s.Legible) (layout : Layout) :
    parse (render layout s) false = .ok { s with comments := commentLines s } ∨
      ¬s.Writable ∧ ∃ e, parse (render layout s) false = .error e := by
  have hspelled := Statement.spelled_eq_self hs.items_ne_nil
  have hresolved : s.spelled.Resolved := by
    rw [hspelled]
    exact hs.toResolved
  have hcases := parse_render_cases hresolved hs.wildcard_unlabelled layout
  rwa [hspelled] at hcases

/-- The text of a writable statement is read as the statement. -/
theorem parse_render {s : Statement} (hs : s.Writable) (layout : Layout) :
    parse (render layout s) false = .ok { s with comments := commentLines s } := by
  rcases parse_render_legible hs.toLegible layout with h | ⟨hw, -⟩
  · exact h
  · exact absurd hs hw

end Sql

end FetchQuery
