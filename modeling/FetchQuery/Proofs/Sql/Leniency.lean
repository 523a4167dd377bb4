import FetchQuery.Proofs.Sql.InStepStatement

/-!
# Lenient reading extends strict reading

A lenient scope binds everything that a strict scope binds, and binds it to the same entity; it
binds more only where there are joins. So a lenient reading follows the strict one: wherever the
strict reading succeeds, the lenient one succeeds on the same cursor with the same result.

`Follows X` is this relation between two steps, where a failure of the first step says nothing
about the second unless `X` holds; then the second fails with the same error. The clauses behind
the joins keep the relation for every `X` that excludes joins from the scope. The joins themselves
keep it only as long as failures do not matter, so texts without joins are treated on their own:
none of their tokens is passed in search of a join.
-/

set_option autoImplicit false

namespace FetchQuery

/-! ## Relaxed scopes -/

/-- The lenient scope with the same entities. -/
def Scope.relaxed (scope : Scope) : Scope :=
  { scope with lenient := true }

/-- A relaxed scope binds a column as the scope does, or where the scope refuses to choose among
joins. -/
theorem Scope.bind_relaxed (scope : Scope) (column : ColumnRef) :
    scope.relaxed.bind column = scope.bind column ∨
      scope.joined ≠ [] ∧ ∃ fault, scope.bind column = .error fault := by
  by_cases h : (column.qualifier.isNone && !scope.lenient && scope.hasJoins) = true
  · refine .inr ⟨?_, .ambiguousColumn column.name, ?_⟩
    · simp only [Bool.and_eq_true, hasJoins, Bool.not_eq_true', List.isEmpty_eq_false_iff] at h
      exact h.2
    · rw [Scope.bind, if_pos h]
  · refine .inl ?_
    rw [Scope.bind, Scope.bind, if_neg h, if_neg (by simp [relaxed])]
    rfl

theorem Scope.orient_relaxed (scope : Scope) (left right : ColumnRef) :
    scope.relaxed.orient left right = scope.orient left right ∨
      ∃ fault, scope.orient left right = .error fault := by
  have hsides : scope.relaxed.sides left right = scope.sides left right := rfl
  rw [orient, orient, hsides]
  cases scope.sides left right with
  | error fault => exact .inl rfl
  | ok sides =>
    by_cases h : (sides.1.qualifier.isNone && !scope.lenient) = true
    · exact .inr ⟨.ambiguousColumn sides.1.name, if_pos h⟩
    · refine .inl ?_
      simp only [if_neg h]
      rw [if_neg (by simp [relaxed])]
      rfl

/-- A select value is bound as in the scope, or refused by the scope because of the joins. -/
theorem SelectList.bindValue_relaxed (scope : Scope) (value : SelectValue) :
    bindValue scope.relaxed value = bindValue scope value ∨
      scope.joined ≠ [] ∧ ∃ fault, bindValue scope value = .error fault := by
  cases value with
  | column c =>
    rw [bindValue, bindValue]
    rcases scope.bind_relaxed c with h | ⟨hjoined, fault, h⟩
    · exact .inl (by rw [h])
    · exact .inr ⟨hjoined, fault, by rw [h]⟩
  | wildcard owner => exact .inl (by cases owner <;> rfl)
  | aggregate call =>
    rw [bindValue, bindValue]
    cases call.argument with
    | star => exact .inl rfl
    | column c =>
      rcases scope.bind_relaxed c with h | ⟨hjoined, fault, h⟩
      · exact .inl (by simp only [h])
      · exact .inr ⟨hjoined, fault, by simp only [h]⟩

theorem SelectList.bindItems_relaxed (scope : Scope) (pending : List PendingItem) :
    bindItems scope.relaxed pending = bindItems scope pending ∨
      scope.joined ≠ [] ∧ ∃ e, bindItems scope pending = .error e := by
  induction pending with
  | nil => exact .inl rfl
  | cons p pending ih =>
    rw [bindItems, bindItems]
    rcases bindValue_relaxed scope p.item.value with hvalue | ⟨hjoined, fault, hvalue⟩
    · rw [hvalue]
      cases bindValue scope p.item.value with
      | error fault => exact .inl rfl
      | ok bound =>
        rcases ih with hrest | ⟨hjoined, e, hrest⟩
        · exact .inl (by rw [hrest])
        · exact .inr ⟨hjoined, e, by simp only [hrest]⟩
    · exact .inr ⟨hjoined, _, by rw [hvalue]⟩

theorem SelectList.bind_relaxed (scope : Scope) (pending : List PendingItem)
    (groupBy : List ColumnRef) (joins : List Join) :
    SelectList.bind scope.relaxed pending groupBy joins =
        SelectList.bind scope pending groupBy joins ∨
      scope.joined ≠ [] ∧ ∃ e, SelectList.bind scope pending groupBy joins = .error e := by
  have hentity : entityOf scope.relaxed joins = entityOf scope joins := by
    funext owner
    cases owner <;> rfl
  rw [SelectList.bind, SelectList.bind, hentity]
  rcases bindItems_relaxed scope pending with h | ⟨hjoined, e, h⟩
  · exact .inl (by rw [h])
  · exact .inr ⟨hjoined, e, by rw [h]⟩

namespace Sql

/-! ## Following -/

/-- Outcomes on one cursor: the same error, or related results with the same cursor, or any outcome
in place of an error that is not to be kept. -/
inductive Outlasts (X : Prop) {α β : Type} (R : α → β → Prop) :
    EStateM.Result SyntaxError Cursor α → EStateM.Result SyntaxError Cursor β → Prop
  | ok {a : α} {b : β} {c : Cursor} (hab : R a b) : Outlasts X R (.ok a c) (.ok b c)
  | same {e : SyntaxError} {c : Cursor} : Outlasts X R (.error e c) (.error e c)
  | lost {e : SyntaxError} {c : Cursor} {r : EStateM.Result SyntaxError Cursor β} (h : ¬X) :
    Outlasts X R (.error e c) r

/-- The second step has the result of the first wherever the first has one, and its error if `X`
holds. -/
def Follows (X : Prop) {α β : Type} (p : Parser α) (p' : Parser β) (R : α → β → Prop) : Prop :=
  ∀ c, Outlasts X R (p c) (p' c)

section Steps

variable {X : Prop} {α α' β β' : Type} {p : Parser α} {p' : Parser α'} {f : α → Parser β}
  {f' : α' → Parser β'} {Q Q' : α → α' → Prop} {R : β → β' → Prop}

theorem follows_refl (p : Parser α) : Follows X p p Eq := by
  intro c
  cases p c with
  | ok a c' => exact .ok rfl
  | error e c' => exact .same

theorem follows_pure {a : α} {a' : α'} (h : Q a a') : Follows X (pure a) (pure a') Q :=
  fun _ => .ok h

theorem Outlasts.mono {r : EStateM.Result SyntaxError Cursor α}
    {r' : EStateM.Result SyntaxError Cursor α'} (h : Outlasts X Q r r')
    (hq : ∀ a a', Q a a' → Q' a a') : Outlasts X Q' r r' := by
  cases h with
  | ok hab => exact .ok (hq _ _ hab)
  | same => exact .same
  | lost h => exact .lost h

theorem Outlasts.bind {c : Cursor} (h : Outlasts X Q (p c) (p' c))
    (hf : ∀ a a', Q a a' → Follows X (f a) (f' a') R) :
    Outlasts X R ((p >>= f) c) ((p' >>= f') c) := by
  change Outlasts X R (EStateM.bind p f c) (EStateM.bind p' f' c)
  rw [EStateM.bind, EStateM.bind]
  generalize p c = result at h
  generalize p' c = result' at h
  cases h with
  | ok hab => exact hf _ _ hab _
  | same => exact .same
  | lost h => exact .lost h

theorem Follows.bind (h : Follows X p p' Q) (hf : ∀ a a', Q a a' → Follows X (f a) (f' a') R) :
    Follows X (p >>= f) (p' >>= f') R :=
  fun c => (h c).bind hf

theorem Follows.eq_bind {q q' : Parser α} {g : α → Parser β} {g' : α → Parser β'}
    (h : Follows X q q' Eq) (hg : ∀ a, Follows X (g a) (g' a) R) :
    Follows X (q >>= g) (q' >>= g') R := by
  refine h.bind ?_
  rintro a _ rfl
  exact hg a

/-- A step that is the same in both readings. -/
theorem follows_bind {g : α → Parser β} {g' : α → Parser β'}
    (h : ∀ a, Follows X (g a) (g' a) R) : Follows X (p >>= g) (p >>= g') R :=
  (follows_refl p).eq_bind h

theorem follows_ite {P : Prop} [Decidable P] {q : Parser α} {q' : Parser α'}
    (h : Follows X p p' Q) (h' : Follows X q q' Q) :
    Follows X (if P then p else q) (if P then p' else q') Q := by
  split
  · exact h
  · exact h'

theorem follows_inScope (position : Position) {r r' : Except ScopeFault α}
    (h : r' = r ∨ ¬X ∧ ∃ fault, r = .error fault) :
    Follows X (inScope position r) (inScope position r') Eq := by
  rcases h with rfl | ⟨hX, fault, rfl⟩
  · exact follows_refl _
  · exact fun _ => .lost hX

end Steps

/-! ## Clauses behind the joins -/

section Clauses

variable {X : Prop}

theorem follows_commaItems {α : Type} {item item' : Parser α} (h : Follows X item item' Eq)
    (n : Nat) : Follows X (commaItems item n) (commaItems item' n) Eq := by
  induction n with
  | zero => exact follows_pure rfl
  | succ n ih =>
    refine follows_bind fun _ => follows_ite (h.eq_bind fun first => ?_) (follows_pure rfl)
    refine ih.eq_bind fun rest => ?_
    exact follows_pure rfl

theorem follows_commaList {α : Type} {item item' : Parser α} (h : Follows X item item' Eq) :
    Follows X (commaList item) (commaList item') Eq := by
  refine h.eq_bind fun first => ?_
  refine follows_bind fun n => (follows_commaItems h n).eq_bind fun rest => ?_
  exact follows_pure rfl

section Levels

variable {operand operand' : Parser Condition} (h : Follows X operand operand' Eq)

include h

theorem follows_negation (n : Nat) :
    Follows X (negation operand n) (negation operand' n) Eq := by
  induction n with
  | zero => exact h
  | succ n ih =>
    refine follows_bind fun _ => follows_ite (ih.eq_bind fun inner => ?_) h
    exact follows_pure rfl

theorem follows_operands (op : Connective) (n : Nat) (left : Condition) :
    Follows X (operands op operand n left) (operands op operand' n left) Eq := by
  induction n generalizing left with
  | zero => exact follows_pure rfl
  | succ n ih =>
    refine follows_bind fun _ => follows_ite (h.eq_bind fun right => ?_) (follows_pure rfl)
    exact ih _

theorem follows_chain (op : Connective) :
    Follows X (chain op operand) (chain op operand') Eq := by
  refine h.eq_bind fun first => ?_
  exact follows_bind fun n => follows_operands h op n first

theorem follows_negations : Follows X (negations operand) (negations operand') Eq :=
  follows_bind fun n => follows_negation h n

end Levels

variable {scope : Scope} (hX : X → scope.joined = [])

include hX

theorem follows_bind_scope (position : Position) (column : ColumnRef) :
    Follows X (inScope position (scope.bind column)) (inScope position (scope.relaxed.bind column))
      Eq := by
  refine follows_inScope position ((scope.bind_relaxed column).imp_right ?_)
  rintro ⟨hjoined, hfault⟩
  exact ⟨fun h => hjoined (hX h), hfault⟩

theorem follows_boundColumn :
    Follows X (boundColumn scope) (boundColumn scope.relaxed) Eq := by
  refine follows_bind fun position => follows_bind fun column => ?_
  refine (follows_bind_scope hX position column).eq_bind fun bound => ?_
  exact follows_pure rfl

theorem follows_literalFirst :
    Follows X (literalFirst scope) (literalFirst scope.relaxed) Eq := by
  refine follows_bind fun value => follows_bind fun kind => ?_
  cases comparisonOf? kind with
  | none => exact follows_refl _
  | some op =>
    refine follows_bind fun _ => (follows_boundColumn hX).eq_bind fun column => ?_
    exact follows_pure rfl

theorem follows_predicate {inner inner' : Parser Condition} (h : Follows X inner inner' Eq) :
    Follows X (predicate scope inner) (predicate scope.relaxed inner') Eq := by
  refine follows_bind fun _ => follows_ite ?_ ?_
  · refine follows_bind fun _ => follows_ite (follows_refl _) (h.eq_bind fun condition => ?_)
    exact follows_refl _
  · refine follows_bind fun kind => follows_ite (follows_literalFirst hX) ?_
    cases kind with
    | identifier name =>
      refine (follows_boundColumn hX).eq_bind fun column => ?_
      exact follows_refl _
    | _ => exact follows_refl _

theorem follows_conditionWithin (depth : Nat) :
    Follows X (conditionWithin scope depth) (conditionWithin scope.relaxed depth) Eq := by
  induction depth with
  | zero => exact follows_refl _
  | succ depth ih =>
    exact follows_chain (follows_chain (follows_negations (follows_predicate hX ih)) .and) .or

theorem follows_whereClause : Follows X (whereClause scope) (whereClause scope.relaxed) Eq := by
  refine follows_bind fun _ => follows_ite ?_ (follows_refl _)
  have hcondition : Follows X (condition scope) (condition scope.relaxed) Eq :=
    follows_bind fun n => follows_conditionWithin hX (n + 1)
  refine hcondition.eq_bind fun condition => ?_
  exact follows_pure rfl

theorem follows_groupByClause :
    Follows X (groupByClause scope) (groupByClause scope.relaxed) Eq :=
  follows_bind fun _ => follows_ite
    (follows_bind fun _ => follows_commaList (follows_boundColumn hX)) (follows_refl _)

theorem follows_orderItem (labels : List String) :
    Follows X (orderItem scope labels) (orderItem scope.relaxed labels) Eq := by
  refine follows_bind fun position => follows_bind fun written => ?_
  refine follows_ite (follows_refl _) ?_
  refine (follows_bind_scope hX position written).eq_bind fun bound => ?_
  exact follows_refl _

theorem follows_orderByClause (labels : List String) :
    Follows X (orderByClause scope labels) (orderByClause scope.relaxed labels) Eq :=
  follows_bind fun _ => follows_ite
    (follows_bind fun _ => follows_commaList (follows_orderItem hX labels)) (follows_refl _)

theorem follows_bindSelectList (pending : List PendingItem) (groupBy : List ColumnRef)
    (joins : List Join) :
    Follows X (bindSelectList scope pending groupBy joins)
      (bindSelectList scope.relaxed pending groupBy joins) Eq := by
  rw [bindSelectList, bindSelectList]
  rcases SelectList.bind_relaxed scope pending groupBy joins with h | ⟨hjoined, e, h⟩
  · rw [h]
    exact follows_refl _
  · rw [h]
    exact fun _ => .lost fun hx => hjoined (hX hx)

end Clauses

/-! ## Joins -/

section Joins

variable {X : Prop} (hX : ¬X)

include hX

theorem follows_joinLink (scope : Scope) :
    Follows X (joinLink scope) (joinLink scope.relaxed) Eq := by
  refine follows_bind fun position => follows_bind fun left => follows_bind fun _ => ?_
  refine follows_bind fun right => follows_bind fun kind => ?_
  split
  · exact follows_refl _
  · exact follows_refl _
  · exact follows_inScope position ((scope.orient_relaxed left right).imp_right fun h => ⟨hX, h⟩)

theorem follows_join (kind : JoinKind) (scope : Scope) :
    Follows X (join kind scope) (join kind scope.relaxed)
      fun r r' => r' = (r.1, r.2.relaxed) := by
  refine follows_bind fun position => follows_bind fun entity => follows_bind fun label => ?_
  rw [Scope.addJoin, Scope.addJoin, show scope.relaxed.find? = scope.find? from rfl]
  cases scope.find? (label.getD entity) with
  | some owner => exact fun _ => .same
  | none =>
    refine follows_bind fun _ => (follows_joinLink hX _).eq_bind fun link => ?_
    exact follows_pure rfl

theorem follows_joinsWithin (n : Nat) (scope : Scope) :
    Follows X (joinsWithin n scope) (joinsWithin n scope.relaxed)
      fun r r' => r' = (r.1, r.2.relaxed) := by
  induction n generalizing scope with
  | zero => exact follows_pure rfl
  | succ n ih =>
    refine follows_bind fun kind => ?_
    cases kind with
    | none => exact follows_pure rfl
    | some kind =>
      refine (follows_join hX kind scope).bind ?_
      rintro ⟨first, extended⟩ _ rfl
      refine (ih extended).bind ?_
      rintro ⟨rest, final⟩ _ rfl
      exact follows_pure rfl

theorem follows_joins (scope : Scope) :
    Follows X (joins scope) (joins scope.relaxed) fun r r' => r' = (r.1, r.2.relaxed) :=
  follows_bind fun n => follows_joinsWithin hX n scope

end Joins

/-! ## Texts without joins -/

section JoinFree

variable {T : Track} {d : Nat} {K : TokenKind → Prop}

/-- A token that does not occur is never passed. -/
theorem inStep_expect_absent {kind : TokenKind} (habsent : ∀ t ∈ T.left, t.kind ≠ kind)
    (what : Expectation) {R : Unit → Unit → Prop} :
    T.InStep d K (expect kind what) (expect kind what) R := by
  refine inStep_isAt_bind (fun _ => ?_) (inStep_unexpected what)
  exact fun c c' hc _ hk => absurd hk (habsent c.current hc.current_mem)

variable (hfree : ∀ t ∈ T.left, t.kind ≠ .keyword .join)

include hfree

theorem inStep_joinKind_absent :
    T.InStep d K joinKind joinKind fun kind kind' => kind = none ∧ kind' = none := by
  have hexpect : ∀ {d K α} {f : Unit → Parser α} {R : α → α → Prop} (what : Expectation),
      T.InStep d K (expectKeyword .join what >>= f) (expectKeyword .join what >>= f) R :=
    fun what => (inStep_expect_absent hfree what).bind (Q := fun _ _ => False) fun _ _ h => h.elim
  refine inStep_currentKind_bind fun k _ => ?_
  -- every word that may introduce a join needs `JOIN` behind it
  split
  · exact fun c c' hc _ hk => absurd hk (hfree c.current hc.current_mem)
  · exact (inStep_advance (T.passes_keyword (by decide))).bind fun _ _ _ => hexpect _
  · refine (inStep_advance (T.passes_keyword (by decide))).bind fun _ _ _ => ?_
    exact (inStep_eat (T.passes_keyword (by decide) _ rfl)).bind fun _ _ _ => hexpect _
  · exact inStep_failHere _
  · exact inStep_failHere _
  · exact inStep_failHere _
  · exact inStep_pure ⟨rfl, rfl⟩

/-- Where no join is ahead, reading joins has the same outcome in every scope. -/
theorem outlasts_joins_absent {c : Cursor} (hc : T.Abreast c c) (scope : Scope) :
    Outlasts True (fun r r' => r = ([], scope) ∧ r' = ([], scope.relaxed)) (joins scope c)
      (joins scope.relaxed c) := by
  have hmeets := inStep_joinKind_absent (K := fun _ => True) hfree c c hc (Nat.le_refl _) trivial
  have hkind : Outlasts True (fun kind kind' => kind = none ∧ kind' = none) (joinKind c)
      (joinKind c) := by
    generalize joinKind c = outcome at hmeets
    cases hmeets with
    | ok hnone _ _ => exact .ok hnone
    | error _ => exact .same
  change Outlasts True _ (joinsWithin c.ahead.length scope c)
    (joinsWithin c.ahead.length scope.relaxed c)
  cases c.ahead.length with
  | zero => exact .ok ⟨rfl, rfl⟩
  | succ n =>
    refine hkind.bind ?_
    rintro _ _ ⟨rfl, rfl⟩
    exact follows_pure ⟨rfl, rfl⟩

end JoinFree

/-! ## Statements -/

/-- Scopes that the joins of two readings leave. -/
def Relaxes (X : Prop) (r r' : List Join × Scope) : Prop :=
  r' = (r.1, r.2.relaxed) ∧ (X → r.2.joined = [])

section Statements

variable {X : Prop} {c : Cursor}

/-- If the joins are followed, so are the clauses behind them. -/
theorem outlasts_middle (scope : Scope)
    (h : Outlasts X (Relaxes X) (joins scope c) (joins scope.relaxed c)) :
    Outlasts X (fun m m' => m' = { m with scope := m.scope.relaxed } ∧ (X → m.scope.joined = []))
      (middle scope c) (middle scope.relaxed c) := by
  refine h.bind ?_
  rintro ⟨js, final⟩ _ ⟨rfl, hX⟩
  refine (follows_whereClause hX).eq_bind fun condition => ?_
  refine (follows_groupByClause hX).eq_bind fun groupBy => ?_
  exact follows_bind fun _ => follows_pure ⟨rfl, hX⟩

theorem follows_closing (comments : List String) (o : Opening) (m : Middle)
    (orderBy : List OrderItem) (hX : X → m.scope.joined = []) :
    Follows X (closing comments o m orderBy)
      (closing comments o { m with scope := m.scope.relaxed } orderBy) Eq := by
  refine follows_bind fun top => follows_bind fun _ => ?_
  refine (follows_bindSelectList hX o.pending m.groupBy m.joins).eq_bind fun owned => ?_
  exact follows_pure rfl

/-- If the joins are followed, so is the whole statement. -/
theorem outlasts_statementBody (comments : List String)
    (h : ∀ o c₁, opening c = .ok o c₁ → Outlasts X (Relaxes X)
      (joins (Scope.ofSource o.source false) c₁) (joins (Scope.ofSource o.source true) c₁)) :
    Outlasts X Eq (statementBody false comments c) (statementBody true comments c) := by
  rw [statementBody_eq, statementBody_eq]
  change Outlasts X Eq (EStateM.bind opening _ c) (EStateM.bind opening _ c)
  rw [EStateM.bind, EStateM.bind]
  -- no scope is in use before the joins
  cases hopening : opening c with
  | error e c₁ => exact .same
  | ok o c₁ =>
    refine (outlasts_middle (Scope.ofSource o.source false) (h o c₁ hopening)).bind ?_
    rintro m _ ⟨rfl, hX⟩
    refine (follows_orderByClause hX o.labels).eq_bind fun orderBy => ?_
    exact follows_closing comments o m orderBy hX

theorem outlasts_statement
    (h : ∀ o c₁, opening { c with comments := [] } = .ok o c₁ → Outlasts X (Relaxes X)
      (joins (Scope.ofSource o.source false) c₁) (joins (Scope.ofSource o.source true) c₁)) :
    Outlasts X Eq (statement false c) (statement true c) := by
  rw [statement_eq, statement_eq]
  change Outlasts X Eq (EStateM.bind (refuse _ _) _ c) (EStateM.bind (refuse _ _) _ c)
  rw [EStateM.bind, EStateM.bind]
  cases hrefuse : refuse .with .commonTableExpression c with
  | error e c₁ => exact .same
  | ok _ c₁ =>
    obtain rfl := eq_of_refuse hrefuse
    exact outlasts_statementBody c₁.comments h

end Statements

/-- What following statements means for texts. -/
theorem parse_of_outlasts {X : Prop} (text : String)
    (h : ∀ c, Cursor.ofSource text = .ok c →
      Outlasts X Eq (statement false c) (statement true c)) :
    parse text true = parse text false ∨ ¬X ∧ ∃ e, parse text false = .error e := by
  rw [parse, parse]
  cases hc : Cursor.ofSource text with
  | error e => exact .inl rfl
  | ok c =>
    have hstatement := h c hc
    simp only []
    generalize statement false c = outcome at hstatement
    generalize statement true c = outcome' at hstatement
    cases hstatement with
    | ok hs => exact .inl (by rw [hs])
    | same => exact .inl rfl
    | @lost e _ _ hX => exact .inr ⟨hX, e, rfl⟩

/-- Lenient reading conservatively extends strict reading. It accepts what is accepted without the
option, as the same statement; and without joins it makes no difference at all. -/
theorem parse_lenient_extends (text : String) :
    (∀ s, parse text false = .ok s → parse text true = .ok s) ∧
      ((∀ t ∈ tokenize text, t.kind ≠ .keyword .join) → parse text false = parse text true) := by
  constructor
  · intro s hs
    have houtcome := parse_of_outlasts (X := False) text fun c _ =>
      outlasts_statement fun o c₁ _ => ?_
    · rcases houtcome with heq | ⟨-, e, he⟩
      · exact heq.trans hs
      · rw [hs] at he
        cases he
    · exact (follows_joins not_false _ c₁).mono fun r r' hr => ⟨hr, False.elim⟩
  · intro hfree
    have houtcome := parse_of_outlasts (X := True) text fun c hc =>
      outlasts_statement fun o c₁ hopening => ?_
    · exact (houtcome.resolve_right fun h => h.1 trivial).symm
    · -- the opening passes some tokens of the text, so what is left has no join either
      have hstart : (Track.ofText text true).Abreast { c with comments := [] }
          { c with comments := [] } := abreast_ofSource hc true
      obtain ⟨-, habreast⟩ := inStep_opening.of_ok hstart hopening
      have hleft : ∀ t ∈ (Track.ofText text true).left, t.kind ≠ .keyword .join := fun t ht =>
        hfree t (List.mem_filter.1 ht).1
      refine (outlasts_joins_absent hleft habreast _).mono ?_
      rintro _ _ ⟨rfl, rfl⟩
      exact ⟨rfl, fun _ => rfl⟩

/-- A text in which every column next to the join has a qualifier. -/
def qualifiedText : String :=
  "select a.name, u.id from account a join user u on u.id = a.owner where u.x = 1 order by a.name"

/-- A text that announces a join and has none. -/
def joinlessText : String :=
  "select name from account a left outer user u on u.id = a.owner"

theorem parse_lenient_extends_qualified :
    (∃ s, parse qualifiedText false = .ok s ∧ parse qualifiedText true = .ok s) ∧
      (∀ t ∈ tokenize joinlessText, t.kind ≠ .keyword .join) ∧
      parse joinlessText false = parse joinlessText true := by
  have hok : (parse qualifiedText false).isOk = true := by decide +kernel
  have hfree : ∀ t ∈ tokenize joinlessText, t.kind ≠ .keyword .join := by decide +kernel
  refine ⟨?_, hfree, (parse_lenient_extends joinlessText).2 hfree⟩
  cases hs : parse qualifiedText false with
  | ok s => exact ⟨s, rfl, (parse_lenient_extends qualifiedText).1 s hs⟩
  | error e =>
    rw [hs] at hok
    cases hok

/-- The extension is proper: next to a join, only a lenient reading takes a column without
qualifier. -/
example : (parse ownersText false).isOk = false ∧ (parse ownersText true).isOk = true := by
  decide +kernel

end Sql

end FetchQuery
