import FetchQuery.Proofs.WellBound
import FetchQuery.Proofs.Sql.Reading

/-!
# Texts without faults

The text of a statement is cut into lexemes that are no comments, and no faults if no name in
the statement is empty (`plain_clauses`): brackets around an empty name are the only fault that
a text of a statement could hold. Where names may be empty, all facts hold for the lexemes that
are left: `strict` stands for what is known to rule empty names out.
-/

set_option autoImplicit false

namespace FetchQuery.Sql

/-- Lexemes without comments, and without faults where `strict` holds. -/
def Plain (strict : Prop) (ls : List Lexeme) : Prop :=
  ∀ l ∈ ls, Clean strict l

variable {strict : Prop}

@[simp] theorem plain_nil : Plain strict [] := by
  simp [Plain]

@[simp] theorem plain_cons {l : Lexeme} {ls : List Lexeme} :
    Plain strict (l :: ls) ↔ Clean strict l ∧ Plain strict ls := by
  simp [Plain]

@[simp] theorem plain_append {ls ls' : List Lexeme} :
    Plain strict (ls ++ ls') ↔ Plain strict ls ∧ Plain strict ls' := by
  simp [Plain, or_imp, forall_and]

@[simp] theorem clean_ofKeyword (k : Keyword) : Clean strict (Lexeme.ofKeyword k) :=
  ⟨rfl, fun _ => rfl⟩

@[simp] theorem clean_ofSymbol (s : Symbol) : Clean strict (Lexeme.ofSymbol s) :=
  ⟨rfl, fun _ => rfl⟩

@[simp] theorem clean_ofString (s : String) : Clean strict (Lexeme.ofString s) :=
  ⟨rfl, fun _ => rfl⟩

@[simp] theorem clean_ofDigits (cs : List Char) : Clean strict (Lexeme.ofDigits cs) :=
  ⟨rfl, fun _ => rfl⟩

@[simp] theorem clean_ofName (name : String) :
    Clean strict (Lexeme.ofName name) ↔ (strict → name ≠ "") := by
  rw [Clean, Lexeme.ofName]
  split <;> simp_all [TokenKind.isPlain, TokenKind.isComment]

theorem plain_comma {phrases : List (List Lexeme)} (h : ∀ phrase ∈ phrases, Plain strict phrase) :
    Plain strict (commaLexemes phrases) := by
  cases phrases with
  | nil => exact plain_nil
  | cons phrase phrases =>
    rw [commaLexemes_cons, plain_append]
    refine ⟨h phrase List.mem_cons_self, ?_⟩
    intro l hl
    obtain ⟨ls, hls, hl⟩ := List.mem_flatMap.1 hl
    have hplain : Plain strict (Lexeme.ofSymbol .comma :: ls) := by
      simpa using h ls (List.mem_cons_of_mem phrase hls)
    exact hplain l hl

theorem plain_literal (value : Literal) : Plain strict value.lexemes := by
  cases value with
  | text content => simp [Literal.lexemes]
  | number d => cases hd : d.negative <;> simp [Literal.lexemes, hd]
  | truth value => cases value <;> simp [Literal.lexemes]

theorem plain_test (negated : Bool) (test : Test) : Plain strict (testLexemes negated test) := by
  cases test with
  | compare op value => simp [testLexemes, plain_literal]
  | null expected => cases expected <;> simp [testLexemes]
  | among values =>
    have hlist : Plain strict (commaLexemes (values.map Literal.lexemes)) :=
      plain_comma fun phrase hphrase => by
        obtain ⟨value, -, rfl⟩ := List.mem_map.1 hphrase
        exact plain_literal value
    cases negated <;> simp [testLexemes, hlist]
  | between low high => cases negated <;> simp [testLexemes, plain_literal]
  | like pattern => cases negated <;> simp [testLexemes]

theorem plain_column {root : Option String} {c : ColumnRef} (hname : strict → c.name ≠ "")
    (hqualifier : strict → ∀ q, c.qualifier.or root = some q → q ≠ "") :
    Plain strict (columnLexemes root c) := by
  rw [columnLexemes]
  cases hq : c.qualifier.or root with
  | none => simpa using hname
  | some q => simpa [qualifiedLexemes] using ⟨fun h => hqualifier h q hq, hname⟩

theorem plain_group (level around : Nat) {ls : List Lexeme} (h : Plain strict ls) :
    Plain strict (groupLexemes level around ls) := by
  rw [groupLexemes]
  split
  · simpa using h
  · exact h

theorem plain_condition {root : Option String} {e : Condition}
    (h : ∀ c ∈ e.columns, Plain strict (columnLexemes root c)) (around : Nat) :
    Plain strict (conditionLexemes root e around) := by
  fun_induction conditionLexemes root e around with
  | case1 column test around =>
    exact plain_append.2 ⟨h column (by simp [Condition.columns, Condition.tests]), plain_test _ _⟩
  | case2 op left right around ihl ihr =>
    simp only [Condition.columns, Condition.tests, List.map_append, List.mem_append] at h
    refine plain_group _ _ (plain_append.2 ⟨ihl fun c hc => h c (Or.inl hc), ?_⟩)
    simpa using ihr fun c hc => h c (Or.inr hc)
  | case3 column test around hform =>
    exact plain_append.2 ⟨h column (by simp [Condition.columns, Condition.tests]), plain_test _ _⟩
  | case4 column test around hform =>
    refine plain_group _ _ ?_
    simpa [plain_test] using h column (by simp [Condition.columns, Condition.tests])
  | case5 inner around hinner ih =>
    refine plain_group _ _ ?_
    simpa using ih h

/-! ## Statements without empty names -/

theorem getD_ne_empty {label : Option String} {entity : String}
    (h : "" ∉ entity :: label.toList) : label.getD entity ≠ "" := by
  cases label with
  | none => exact fun heq => h (heq ▸ List.mem_cons_self)
  | some label =>
    simp only [Option.toList_some, List.mem_cons, List.not_mem_nil, or_false, not_or] at h
    exact Ne.symm h.2

theorem plain_label {label : Option String} (h : strict → "" ∉ label.toList) :
    Plain strict (labelLexemes label) := by
  cases label with
  | none => exact plain_nil
  | some label =>
    have hne : strict → label ≠ "" := fun hstrict heq => h hstrict (by simp [heq])
    simpa [labelLexemes] using hne

theorem source_qualifier_ne_empty {s : Statement} (hn : s.Named) : s.source.qualifier ≠ "" :=
  getD_ne_empty hn.source

theorem join_qualifier_ne_empty {s : Statement} (hn : s.Named) {j : Join} (hj : j ∈ s.joins) :
    j.qualifier ≠ "" := by
  have h := hn.joins j hj
  simp only [Join.names, List.mem_cons, not_or] at h
  exact getD_ne_empty (by rw [List.mem_cons, not_or]; exact ⟨h.1, h.2.2.2⟩)

theorem rootQualifier_ne_empty {s : Statement} (hn : s.Named) {q : String}
    (hq : rootQualifier s = some q) : q ≠ "" := by
  rw [rootQualifier] at hq
  split at hq
  · simp at hq
  · obtain rfl := Option.some.inj hq
    exact source_qualifier_ne_empty hn

section Named

variable {s : Statement} (hs : s.Resolved) (hn : strict → s.Named)

include hn in
theorem plain_refers {c : ColumnRef} (hc : s.Refers c) (hname : strict → c.name ≠ "") :
    Plain strict (columnLexemes (rootQualifier s) c) := by
  apply plain_column hname
  intro hstrict q hq
  rcases hc with hnone | ⟨j, hj, hsome⟩
  · rw [hnone, Option.none_or] at hq
    exact rootQualifier_ne_empty (hn hstrict) hq
  · rw [hsome, Option.some_or] at hq
    obtain rfl := Option.some.inj hq
    exact join_qualifier_ne_empty (hn hstrict) hj

include hn in
theorem plain_item {item : SelectItem} {owner : Option String}
    (howner : owner = none ∨ ∃ j ∈ s.joins, owner = some j.qualifier)
    (howned : item.value.OwnedBy owner) (hnames : strict → "" ∉ item.names) :
    Plain strict (itemLexemes (rootQualifier s) item) := by
  -- the column of a value or of its argument has the qualifier of the owner
  have hcolumn : ∀ c : ColumnRef, c.qualifier = owner → (strict → "" ≠ c.name) →
      Plain strict (columnLexemes (rootQualifier s) c) := by
    rintro c rfl hc
    exact plain_refers hn howner fun hstrict => (hc hstrict).symm
  rw [itemLexemes, plain_append]
  simp only [SelectItem.names, List.mem_append, not_or] at hnames
  refine ⟨?_, plain_label fun hstrict => (hnames hstrict).2⟩
  replace hnames := fun hstrict => (hnames hstrict).1
  cases hvalue : item.value with
  | column c =>
    rw [hvalue] at howned hnames
    exact hcolumn c howned (by simpa [SelectValue.names] using hnames)
  | wildcard q =>
    rw [hvalue] at howned
    obtain rfl : q = owner := howned
    rw [valueLexemes]
    cases hq : q.or (rootQualifier s) with
    | none => simp [wildcardLexemes]
    | some q' =>
      have hne : strict → q' ≠ "" := by
        intro hstrict
        rcases howner with rfl | ⟨j, hj, rfl⟩
        · exact rootQualifier_ne_empty (hn hstrict) (by simpa using hq)
        · obtain rfl : j.qualifier = q' := by simpa using hq
          exact join_qualifier_ne_empty (hn hstrict) hj
      simpa [wildcardLexemes] using hne
  | aggregate call =>
    rw [hvalue] at howned hnames
    have hsql : call.function.sql ≠ "" := by cases call.function <;> decide
    have hargument : Plain strict (argumentLexemes (rootQualifier s) call.argument) := by
      cases harg : call.argument with
      | star => simp [argumentLexemes]
      | column c =>
        simp only [SelectValue.OwnedBy, SelectValue.names, harg] at howned hnames
        exact hcolumn c howned (by simpa using hnames)
    cases hd : call.distinct <;> simpa [valueLexemes, callLexemes, hd, hsql] using hargument

include hs hn

theorem plain_selectList : Plain strict (selectListLexemes s) := by
  rw [selectListLexemes]
  split
  · simp
  · apply plain_comma
    intro phrase hphrase
    obtain ⟨item, hitem, rfl⟩ := List.mem_map.1 hphrase
    have hnames : strict → "" ∉ item.names := fun hstrict => (hn hstrict).items item hitem
    rcases List.mem_append.1 hitem with hroot | hjoin
    · exact plain_item hn (Or.inl rfl) (hs.root_items item hroot) hnames
    · obtain ⟨j, hj, hitem⟩ := List.mem_flatMap.1 hjoin
      exact plain_item hn (Or.inr ⟨j, hj, rfl⟩) (hs.join_items j hj item hitem) hnames

theorem plain_join {j : Join} (hj : j ∈ s.joins) :
    Plain strict (joinLexemes s.source.qualifier j) := by
  have hnames : strict → "" ∉ j.names := fun hstrict => (hn hstrict).joins j hj
  simp only [Join.names, List.mem_cons, not_or] at hnames
  have hparent : strict → j.parent.getD s.source.qualifier ≠ "" := by
    intro hstrict
    cases hp : j.parent with
    | none => exact source_qualifier_ne_empty (hn hstrict)
    | some p =>
      -- the parent is the qualifier of an earlier join, and no join has an empty one
      obtain ⟨i, hi⟩ := List.mem_iff_getElem?.1 hj
      obtain ⟨k, j', -, hj', rfl⟩ := hs.parent_earlier i j p hi hp
      exact join_qualifier_ne_empty (hn hstrict) (List.mem_of_getElem? hj')
  have hkind : Plain strict (kindLexemes j.kind) := by
    cases j.kind <;> simp [kindLexemes]
  have hlabel : Plain strict (labelLexemes j.label) :=
    plain_label fun hstrict => (hnames hstrict).2.2.2
  have hentity : strict → j.entity ≠ "" := fun hstrict => Ne.symm (hnames hstrict).1
  have hfrom : strict → j.fromAttribute ≠ "" := fun hstrict => Ne.symm (hnames hstrict).2.1
  have hto : strict → j.toAttribute ≠ "" := fun hstrict => Ne.symm (hnames hstrict).2.2.1
  have hqualifier : strict → j.qualifier ≠ "" :=
    fun hstrict => join_qualifier_ne_empty (hn hstrict) hj
  simpa [joinLexemes, qualifiedLexemes, hkind, hlabel] using
    ⟨hentity, hparent, hfrom, hqualifier, hto⟩

theorem plain_select : Plain strict (selectLexemes s) := by
  have hlist := plain_selectList hs hn
  cases hd : s.distinct <;> cases ht : s.top <;>
    simpa [selectLexemes, topLexemes, hd, ht] using hlist

omit hs in
theorem plain_source : Plain strict (sourceLexemes s.source) := by
  have h : strict → "" ∉ s.source.entity :: s.source.label.toList :=
    fun hstrict => (hn hstrict).source
  simp only [List.mem_cons, not_or] at h
  have hentity : strict → s.source.entity ≠ "" := fun hstrict => Ne.symm (h hstrict).1
  simpa [sourceLexemes, plain_label fun hstrict => (h hstrict).2] using hentity

theorem plain_where : Plain strict (whereLexemes s) := by
  rw [whereLexemes]
  cases he : s.condition with
  | none => simp
  | some e =>
    have hcondition := plain_condition (fun c hc => plain_refers hn
      (hs.condition_columns e he c hc) fun hstrict => (hn hstrict).condition e he c hc) 0
    simpa using hcondition

theorem plain_groupBy : Plain strict (groupByLexemes s) := by
  rw [groupByLexemes]
  split
  · simp
  · have hlist : Plain strict (commaLexemes (s.groupBy.map (columnLexemes (rootQualifier s)))) := by
      apply plain_comma
      intro phrase hphrase
      obtain ⟨c, hc, rfl⟩ := List.mem_map.1 hphrase
      exact plain_refers hn (hs.groupBy_columns c hc) fun hstrict => (hn hstrict).groupBy c hc
    simpa using hlist

theorem plain_orderItem {item : OrderItem} (hitem : item ∈ s.orderBy) :
    Plain strict (orderLexemes s item) := by
  have hname : strict → item.column.name ≠ "" := fun hstrict => (hn hstrict).orderBy item hitem
  have hcolumn := plain_refers hn (hs.orderBy_columns item hitem) hname
  rw [orderLexemes]
  split
  · simpa using hname
  · simpa using hcolumn

theorem plain_orderBy : Plain strict (orderByLexemes s) := by
  rw [orderByLexemes]
  split
  · simp
  · have hlist : Plain strict (commaLexemes (s.orderBy.map (orderLexemes s))) := by
      apply plain_comma
      intro phrase hphrase
      obtain ⟨item, hitem, rfl⟩ := List.mem_map.1 hphrase
      exact plain_orderItem hs hn hitem
    simpa using hlist

/-- The clauses of a resolved statement hold no comment, and no fault if no name is empty. -/
theorem plain_clauses : Plain strict (clauseLexemes s) := by
  have hjoins : Plain strict (s.joins.flatMap (joinLexemes s.source.qualifier)) := by
    intro l hl
    obtain ⟨j, hj, hl⟩ := List.mem_flatMap.1 hl
    exact plain_join hs hn hj l hl
  simp [clauseLexemes, plain_select hs hn, plain_source hn, hjoins, plain_where hs hn,
    plain_groupBy hs hn, plain_orderBy hs hn]

end Named

end FetchQuery.Sql
