import FetchQuery.Proofs.SelectList
import FetchQuery.Proofs.Sql.InStep
import FetchQuery.Sql.Select

/-!
# The clauses of a statement in step

Every production of the grammar keeps two readings in step: columns, literals and conditions, the
select list, the joins and the clauses behind them. The bounds on repetition and on the depth of
parentheses are never reached, since every further item and every parenthesis is a token.

Only the sort clause passes the word `ORDER`.
-/

set_option autoImplicit false

namespace FetchQuery.Sql

open Track

variable {T : Track} {d : Nat} {K : TokenKind → Prop}

/-! ## Columns and literals -/

theorem inStep_columnRef : T.InStep d K columnRef columnRef Eq := by
  refine (inStep_identifier _).eq_bind fun first => ?_
  refine inStep_eat_bind (T.passes_of_ne (by simp) (by simp)) (fun e _ => ?_) (inStep_pure rfl)
  refine (inStep_identifier _).eq_bind fun name => ?_
  exact inStep_pure rfl

theorem inStep_boundColumn (scope : Scope) :
    T.InStep d K (boundColumn scope) (boundColumn scope) Eq := by
  refine inStep_currentPosition_bind fun p p' hat => inStep_columnRef.eq_bind fun column => ?_
  refine (inStep_inScope hat _).eq_bind fun bound => ?_
  exact inStep_pure rfl

theorem inStep_literalHere (negative : Bool) {start start' : Position} (h : T.At start start') :
    T.InStep d K (literalHere negative start) (literalHere negative start') Eq := by
  refine inStep_currentKind_bind fun k _ => ?_
  split
  · simp only []
    split
    · exact inStep_pure rfl
    · exact inStep_failAt _ h
  · exact inStep_unexpected _
  · exact inStep_pure rfl
  · exact inStep_pure rfl
  · exact inStep_pure rfl
  · exact inStep_failHere _
  · exact inStep_unexpected _

/-- A literal is one of a few kinds of tokens, and looking at it does not pass it. -/
theorem passes_of_literalHere (T : Track) {negative : Bool} {start : Position} {c c' : Cursor}
    {value : Literal} (h : literalHere negative start c = .ok value c') :
    T.Passes c'.current.kind := by
  have hhere : c' = c ∧ beginsLiteral c.current.kind = true := by
    obtain ⟨⟨kind, text, position⟩, ahead, comments⟩ := c
    cases kind with
    | number digits =>
      obtain ⟨_, _, hk, hread⟩ := bind_eq_ok.1 h
      obtain ⟨rfl, rfl⟩ := EStateM.Result.ok.inj hk
      simp only [] at hread
      generalize Decimal.parse? _ = parsed at hread
      cases parsed <;> cases hread
      exact ⟨rfl, rfl⟩
    | keyword word => cases word <;> cases negative <;> cases h <;> exact ⟨rfl, rfl⟩
    | _ => cases negative <;> cases h <;> exact ⟨rfl, rfl⟩
  obtain ⟨rfl, hbegins⟩ := hhere
  refine T.passes_of_ne ?_ ?_
  · intro hkind
    rw [hkind] at hbegins
    cases hbegins
  · intro hkind
    rw [hkind] at hbegins
    cases hbegins

theorem inStep_literal : T.InStep d K literal literal Eq := by
  refine inStep_currentPosition_bind fun start start' hat => ?_
  refine (inStep_eat (T.passes_of_ne (by simp) (by simp))).eq_bind fun negative => ?_
  refine (inStep_literalHere negative hat).bind_at
    (fun _ _ _ _ => passes_of_literalHere T) ?_
  rintro value _ rfl
  exact (inStep_advance fun _ hk => hk).bind fun _ _ _ => inStep_pure rfl

/-! ## Conditions -/

theorem passes_of_comparison (T : Track) {k : TokenKind} {op : Comparison}
    (h : comparisonOf? k = some op) : T.Passes k := by
  refine T.passes_of_ne ?_ ?_
  · rintro rfl
    cases h
  · rintro rfl
    cases h

theorem inStep_literalFirst (scope : Scope) :
    T.InStep d K (literalFirst scope) (literalFirst scope) Eq := by
  refine inStep_literal.eq_bind fun value => ?_
  refine inStep_currentKind_bind fun k _ => ?_
  split
  · next op hop =>
    refine (inStep_advance ?_).bind fun _ _ _ => (inStep_boundColumn scope).bind ?_
    · rintro _ rfl
      exact passes_of_comparison T hop
    · rintro column _ rfl
      exact inStep_pure rfl
  · exact inStep_unexpected _

section Tests

variable (hpasses : ∀ k, K k → T.Passes k)

include hpasses

theorem inStep_comparison (op : Comparison) :
    T.InStep d K (comparison op) (comparison op) Eq := by
  refine (inStep_advance hpasses).bind fun _ _ _ => inStep_currentKind_bind fun k _ => ?_
  split
  · exact inStep_failHere _
  · exact inStep_failHere _
  · refine inStep_literal.eq_bind fun value => ?_
    exact inStep_pure rfl

theorem inStep_nullTest : T.InStep d K nullTest nullTest Eq := by
  refine (inStep_advance hpasses).bind fun _ _ _ => ?_
  refine (inStep_eat (T.passes_of_ne (by simp) (by simp))).eq_bind fun negated => ?_
  exact (inStep_expect (T.passes_of_ne (by simp) (by simp)) _).bind fun _ _ _ => inStep_pure rfl

theorem inStep_likeTest : T.InStep d K likeTest likeTest Eq := by
  refine (inStep_advance hpasses).bind fun _ _ _ => inStep_currentKind_bind fun k _ => ?_
  split
  · refine (inStep_consume ?_).bind fun _ _ _ => inStep_pure rfl
    rintro _ rfl
    exact T.passes_of_ne (by simp) (by simp)
  · exact inStep_unexpected _

theorem inStep_amongTest : T.InStep d K amongTest amongTest Eq := by
  refine (inStep_advance hpasses).bind fun _ _ _ => ?_
  refine (inStep_expect (T.passes_of_ne (by simp) (by simp)) _).bind fun _ _ _ => ?_
  refine inStep_isAt_bind (fun _ => inStep_failHere _) ?_
  refine (inStep_commaList fun _ => inStep_literal).bind ?_
  intro values values' hvalues
  obtain rfl : values = values' := by rwa [List.forall₂_eq_eq_eq] at hvalues
  exact (inStep_expect (T.passes_of_ne (by simp) (by simp)) _).bind fun _ _ _ => inStep_pure rfl

theorem inStep_betweenTest : T.InStep d K betweenTest betweenTest Eq := by
  refine (inStep_advance hpasses).bind fun _ _ _ => inStep_literal.eq_bind fun low => ?_
  refine (inStep_expect (T.passes_of_ne (by simp) (by simp)) _).bind fun _ _ _ => ?_
  refine inStep_literal.eq_bind fun high => ?_
  exact inStep_pure rfl

end Tests

theorem inStep_wordTest (otherwise : Expectation) :
    T.InStep d K (wordTest otherwise) (wordTest otherwise) Eq := by
  refine inStep_currentKind_bind fun k _ => ?_
  split
  · exact inStep_likeTest (T.passes_keyword (by decide))
  · exact inStep_amongTest (T.passes_keyword (by decide))
  · exact inStep_betweenTest (T.passes_keyword (by decide))
  · exact inStep_unexpected _

theorem inStep_columnTest (column : ColumnRef) :
    T.InStep d K (columnTest column) (columnTest column) Eq := by
  refine inStep_currentKind_bind fun k _ => ?_
  split
  · refine (inStep_nullTest ?_).bind ?_
    · rintro _ rfl
      exact T.passes_of_ne (by simp) (by simp)
    · rintro test _ rfl
      exact inStep_pure rfl
  · refine (inStep_advance ?_).bind fun _ _ _ => (inStep_wordTest _).bind ?_
    · rintro _ rfl
      exact T.passes_of_ne (by simp) (by simp)
    · rintro test _ rfl
      exact inStep_pure rfl
  · split
    · next op hop =>
      refine (inStep_comparison ?_ op).bind ?_
      · rintro _ rfl
        exact passes_of_comparison T hop
      · rintro test _ rfl
        exact inStep_pure rfl
    · refine (inStep_wordTest _).eq_bind fun test => ?_
      exact inStep_pure rfl

section Levels

variable {operand operand' : Parser Condition}

/-- A parenthesis leaves fewer tokens ahead for the condition inside it. -/
theorem inStep_predicate (scope : Scope) {inner inner' : Parser Condition}
    (h : ∀ e < d, T.InStep e (fun _ => True) inner inner' Eq) :
    T.InStep d K (predicate scope inner) (predicate scope inner') Eq := by
  refine inStep_eat_bind (T.passes_of_ne (by simp) (by simp)) (fun e he => ?_) ?_
  · -- a query in parentheses is refused by its first word
    refine inStep_isAt_bind (fun _ => inStep_failHere _) ?_
    refine Track.InStep.bind (Q := Eq) (fun c c' hc hd _ => h e he c c' hc hd trivial) ?_
    rintro condition _ rfl
    exact (inStep_expect (T.passes_of_ne (by simp) (by simp)) _).bind fun _ _ _ => inStep_pure rfl
  · refine inStep_currentKind_bind fun k _ => ?_
    refine inStep_ite (fun _ => inStep_literalFirst scope) fun _ => ?_
    split
    · refine (inStep_boundColumn scope).eq_bind fun column => ?_
      exact inStep_columnTest column
    · exact inStep_unexpected _

theorem negation_of_ne {c : Cursor} (h : c.current.kind ≠ .keyword .not) (n : Nat) :
    negation operand n c = operand c := by
  cases n with
  | zero => rfl
  | succ n => exact eat_bind_of_ne h

theorem inStep_negation (h : ∀ e ≤ d, T.InStep e (fun _ => True) operand operand' Eq) {n n' : Nat}
    (hn : d ≤ n) (hn' : d ≤ n') :
    T.InStep d K (negation operand n) (negation operand' n') Eq := by
  refine inStep_rounds (fun n (_ : Unit) => negation operand n) (fun n _ => negation operand' n)
    ?_ ?_ hn hn' ()
  · intro n n' _ c c' hc hd hend
    rw [negation_of_ne (by simp [hend]), negation_of_ne (by simp [← hc.kind_eq, hend])]
    exact h 0 (Nat.zero_le d) c c' hc hd trivial
  · intro n n' _ K e he ih
    refine inStep_eat_bind (T.passes_of_ne (by simp) (by simp)) (fun e' he' => ?_) ?_
    · exact (ih e' he' ()).eq_bind fun inner => inStep_pure rfl
    · exact fun c c' hc hd _ => h e he c c' hc hd trivial

theorem operands_of_ne {op : Connective} {c : Cursor} (h : c.current.kind ≠ .keyword op.keyword)
    (n : Nat) (left : Condition) : operands op operand n left c = .ok left c := by
  cases n with
  | zero => rfl
  | succ n => exact eat_bind_of_ne h

theorem inStep_operands (op : Connective)
    (h : ∀ e ≤ d, T.InStep e (fun _ => True) operand operand' Eq) {n n' : Nat} (hn : d ≤ n)
    (hn' : d ≤ n') (left : Condition) :
    T.InStep d K (operands op operand n left) (operands op operand' n' left) Eq := by
  have hpasses : T.Passes (.keyword op.keyword) := by
    cases op <;> exact T.passes_of_ne (by simp) (by simp [Connective.keyword])
  refine inStep_rounds (operands op operand) (operands op operand') ?_ ?_ hn hn' left
  · intro n n' left c c' hc _ hend
    rw [operands_of_ne (by simp [hend]), operands_of_ne (by simp [← hc.kind_eq, hend])]
    exact .ok rfl hc (Nat.le_refl _)
  · intro n n' left K e he ih
    refine inStep_eat_bind hpasses (fun e' he' => ?_) (inStep_pure rfl)
    exact (h e' (by omega)).eq_bind fun right => ih e' he' _

theorem inStep_chain (op : Connective)
    (h : ∀ e ≤ d, T.InStep e (fun _ => True) operand operand' Eq) :
    T.InStep d K (chain op operand) (chain op operand') Eq := by
  refine Track.InStep.bind (Q := Eq) (fun c c' hc hd _ => h d (Nat.le_refl d) c c' hc hd trivial) ?_
  rintro first _ rfl
  refine inStep_remaining_bind fun e n n' he hn hn' => ?_
  exact inStep_operands op (fun e' he' => h e' (Nat.le_trans he' he)) hn hn' first

theorem inStep_negations (h : ∀ e ≤ d, T.InStep e (fun _ => True) operand operand' Eq) :
    T.InStep d K (negations operand) (negations operand') Eq :=
  inStep_remaining_bind fun _ _ _ he hn hn' =>
    inStep_negation (fun e' he' => h e' (Nat.le_trans he' he)) hn hn'

end Levels

/-- A condition does not depend on the bound on its depth, as long as the tokens ahead are fewer. -/
theorem inStep_conditionWithin (scope : Scope) {depth depth' : Nat} (hdepth : d < depth)
    (hdepth' : d < depth') :
    T.InStep d K (conditionWithin scope depth) (conditionWithin scope depth') Eq := by
  induction depth generalizing d depth' K with
  | zero => exact absurd hdepth (Nat.not_lt_zero d)
  | succ depth ih =>
    obtain ⟨depth', rfl⟩ := Nat.exists_eq_add_of_lt (Nat.zero_lt_of_lt hdepth')
    -- connectives leave the depth alone, and a parenthesis takes a token with every level
    refine inStep_chain .or fun e he => inStep_chain .and fun e he => ?_
    refine inStep_negations fun e he => ?_
    exact inStep_predicate scope fun e he => ih (by omega) (by omega)

theorem inStep_condition (scope : Scope) :
    T.InStep d K (condition scope) (condition scope) Eq :=
  inStep_remaining_bind fun _ _ _ _ hn hn' =>
    inStep_conditionWithin scope (Nat.lt_succ_of_le hn) (Nat.lt_succ_of_le hn')

/-! ## The select list -/

theorem inStep_rowCount (clause : Keyword) :
    T.InStep d K (rowCount clause) (rowCount clause) Eq := by
  refine (inStep_eat (T.passes_of_ne (by simp) (by simp))).eq_bind fun parenthesized => ?_
  refine inStep_currentKind_bind fun k _ => ?_
  split
  · split
    · refine (inStep_advance ?_).bind fun _ _ _ => ?_
      · rintro _ rfl
        exact T.passes_of_ne (by simp) (by simp)
      · refine inStep_ite (fun _ => ?_) fun _ => inStep_pure rfl
        exact (inStep_expect (T.passes_of_ne (by simp) (by simp)) _).bind fun _ _ _ =>
          inStep_pure rfl
    · exact inStep_failHere _
  · exact inStep_unexpected _

theorem inStep_optionalLabel : T.InStep d K optionalLabel optionalLabel Eq := by
  have hlabel : ∀ {d K}, T.InStep d K (identifier .label >>= fun label => pure (some label))
      (identifier .label >>= fun label => pure (some label)) Eq := by
    intro d K
    refine (inStep_identifier _).eq_bind fun label => ?_
    exact inStep_pure rfl
  refine inStep_eat_bind (T.passes_of_ne (by simp) (by simp)) (fun _ _ => hlabel) ?_
  refine inStep_atIdentifier.eq_bind fun here => ?_
  exact inStep_ite (fun _ => hlabel) fun _ => inStep_pure rfl

theorem inStep_aggregateArgument (function : AggregateFunction) (distinct : Bool) :
    T.InStep d K (aggregateArgument function distinct) (aggregateArgument function distinct)
      Eq := by
  refine inStep_isAt_bind (fun _ => ?_) ?_
  · rw [if_pos rfl]
    refine inStep_ite (fun _ => inStep_failHere _) fun _ => ?_
    refine (inStep_advance ?_).bind fun _ _ _ => inStep_pure rfl
    rintro _ rfl
    exact T.passes_of_ne (by simp) (by simp)
  · refine inStep_columnRef.eq_bind fun column => ?_
    exact inStep_pure rfl

theorem inStep_aggregateCall (hpasses : ∀ k, K k → T.Passes k) (function : AggregateFunction) :
    T.InStep d K (aggregateCall function) (aggregateCall function) Eq := by
  refine (inStep_advance hpasses).bind fun _ _ _ => ?_
  refine (inStep_eat (T.passes_of_ne (by simp) (by simp))).eq_bind fun distinct => ?_
  refine (inStep_aggregateArgument function distinct).eq_bind fun argument => ?_
  exact (inStep_expect (T.passes_of_ne (by simp) (by simp)) _).bind fun _ _ _ => inStep_pure rfl

theorem inStep_namedValue (name : String) {position position' : Position}
    (h : T.At position position') :
    T.InStep d K (namedValue name position) (namedValue name position') Eq := by
  refine inStep_isAt_bind (fun _ => ?_) ?_
  · rw [if_pos rfl]
    split
    · refine (inStep_aggregateCall ?_ _).bind ?_
      · rintro _ rfl
        exact T.passes_of_ne (by simp) (by simp)
      · rintro call _ rfl
        exact inStep_pure rfl
    · exact inStep_failAt _ h
  · refine inStep_eat_bind (T.passes_of_ne (by simp) (by simp)) (fun _ _ => ?_) (inStep_pure rfl)
    refine inStep_eat_bind (T.passes_of_ne (by simp) (by simp)) (fun _ _ => inStep_pure rfl) ?_
    refine (inStep_identifier _).eq_bind fun column => ?_
    exact inStep_pure rfl

theorem inStep_selectValue {position position' : Position} (h : T.At position position') :
    T.InStep d K (selectValue position) (selectValue position') Eq := by
  refine inStep_eat_bind (T.passes_of_ne (by simp) (by simp)) (fun _ _ => inStep_pure rfl) ?_
  refine (inStep_identifier _).eq_bind fun name => ?_
  exact inStep_namedValue name h

/-- Select items that were read in step. -/
structure Track.SamePending (T : Track) (p p' : PendingItem) : Prop where
  item_eq : p.item = p'.item
  positions : T.At p.position p'.position

theorem inStep_selectItem : T.InStep d K selectItem selectItem T.SamePending := by
  refine inStep_currentPosition_bind fun position position' hat => ?_
  refine (inStep_selectValue hat).eq_bind fun value => ?_
  refine inStep_optionalLabel.eq_bind fun label => ?_
  split
  · exact inStep_failAt _ hat
  · exact inStep_pure ⟨rfl, hat⟩

theorem inStep_selectList :
    T.InStep d K selectList selectList (List.Forall₂ T.SamePending) :=
  inStep_currentKind_bind fun _ _ => inStep_ite
    (fun _ => inStep_commaList fun _ => inStep_selectItem) fun _ => inStep_unexpected _

/-! ## Entities and joins -/

theorem inStep_source : T.InStep d K source source Eq := by
  refine inStep_isAt_bind (fun _ => inStep_failHere _) ?_
  refine (inStep_identifier _).eq_bind fun entity => ?_
  refine inStep_isAt_bind (fun _ => inStep_failHere _) ?_
  refine inStep_optionalLabel.eq_bind fun label => ?_
  exact inStep_pure rfl

/-- The words that introduce a join leave fewer tokens ahead. -/
theorem inStep_joinKind_bind {α α' : Type} {f : Option JoinKind → Parser α}
    {f' : Option JoinKind → Parser α'} {R : α → α' → Prop}
    (hnone : T.InStep d (fun _ => True) (f none) (f' none) R)
    (hsome : ∀ kind, ∀ e < d, T.InStep e (fun _ => True) (f (some kind)) (f' (some kind)) R) :
    T.InStep d K (joinKind >>= f) (joinKind >>= f') R := by
  have hword : ∀ {word} {what : Expectation}, word ≠ Keyword.order → ∀ kind, ∀ e < d,
      T.InStep e (fun _ => True) (expectKeyword word what >>= fun _ => f (some kind))
        (expectKeyword word what >>= fun _ => f' (some kind)) R := fun hword kind e he =>
    (inStep_expect (T.passes_keyword hword _ rfl) _).bind fun _ _ _ => hsome kind e he
  have hfails : ∀ {K} fault, T.InStep d K (failHere fault >>= f) (failHere fault >>= f') R :=
    fun fault => (inStep_failHere fault).bind (Q := fun _ _ => False) fun _ _ h => h.elim
  rw [joinKind, bind_assoc, bind_assoc]
  refine inStep_currentKind_bind fun k _ => ?_
  split
  · simp only [bind_assoc, pure_bind]
    exact inStep_advance_bind (T.passes_keyword (by decide)) fun e he => hsome _ e he
  · simp only [bind_assoc, pure_bind]
    exact inStep_advance_bind (T.passes_keyword (by decide)) (hword (by decide) _)
  · simp only [bind_assoc, pure_bind]
    refine inStep_advance_bind (T.passes_keyword (by decide)) fun e he => ?_
    refine (inStep_eat (T.passes_keyword (by decide) _ rfl)).bind fun _ _ _ => ?_
    exact hword (by decide) _ e he
  · exact hfails _
  · exact hfails _
  · exact hfails _
  · simp only [pure_bind]
    exact fun c c' hc hd _ => hnone c c' hc hd trivial

theorem inStep_joinLink (scope : Scope) : T.InStep d K (joinLink scope) (joinLink scope) Eq := by
  refine inStep_currentPosition_bind fun position position' hat => ?_
  refine inStep_columnRef.eq_bind fun left => ?_
  refine (inStep_expect (T.passes_of_ne (by simp) (by simp)) _).bind fun _ _ _ => ?_
  refine inStep_columnRef.eq_bind fun right => ?_
  refine inStep_currentKind_bind fun k _ => ?_
  split
  · exact inStep_failHere _
  · exact inStep_failHere _
  · exact inStep_inScope hat _

theorem inStep_join (kind : JoinKind) (scope : Scope) :
    T.InStep d K (join kind scope) (join kind scope) Eq := by
  refine inStep_currentPosition_bind fun position position' hat => ?_
  refine (inStep_identifier _).eq_bind fun entity => ?_
  refine inStep_optionalLabel.eq_bind fun label => ?_
  refine (inStep_inScope hat _).eq_bind fun added => ?_
  refine (inStep_expect (T.passes_of_ne (by simp) (by simp)) _).bind fun _ _ _ => ?_
  refine (inStep_joinLink _).eq_bind fun link => ?_
  exact inStep_pure rfl

theorem joinsWithin_of_end {c : Cursor} (h : c.current.kind = .endOfInput) (n : Nat)
    (scope : Scope) : joinsWithin n scope c = .ok ([], scope) c := by
  obtain ⟨⟨kind, text, position⟩, ahead, comments⟩ := c
  obtain rfl : kind = .endOfInput := h
  cases n <;> rfl

theorem inStep_joinsWithin {n n' : Nat} (hn : d ≤ n) (hn' : d ≤ n') (scope : Scope) :
    T.InStep d K (joinsWithin n scope) (joinsWithin n' scope) Eq := by
  refine inStep_rounds joinsWithin joinsWithin ?_ ?_ hn hn' scope
  · intro n n' scope c c' hc _ hend
    rw [joinsWithin_of_end hend, joinsWithin_of_end (by rw [← hc.kind_eq, hend])]
    exact .ok rfl hc (Nat.le_refl _)
  · intro n n' scope K e _ ih
    refine inStep_joinKind_bind (inStep_pure rfl) fun kind e' he' => ?_
    refine (inStep_join kind scope).eq_bind fun first => ?_
    exact (ih e' he' _).eq_bind fun rest => inStep_pure rfl

theorem inStep_joins (scope : Scope) : T.InStep d K (joins scope) (joins scope) Eq :=
  inStep_remaining_bind fun _ _ _ _ hn hn' => inStep_joinsWithin hn hn' scope

/-! ## The other clauses -/

theorem inStep_whereClause (scope : Scope) :
    T.InStep d K (whereClause scope) (whereClause scope) Eq := by
  refine inStep_eat_bind (T.passes_of_ne (by simp) (by simp)) (fun _ _ => ?_) (inStep_pure rfl)
  refine (inStep_condition scope).eq_bind fun condition => ?_
  exact inStep_pure rfl

theorem inStep_groupByClause (scope : Scope) :
    T.InStep d K (groupByClause scope) (groupByClause scope) Eq := by
  refine inStep_eat_bind (T.passes_of_ne (by simp) (by simp)) (fun _ _ => ?_) (inStep_pure rfl)
  refine (inStep_expect (T.passes_of_ne (by simp) (by simp)) _).bind fun _ _ _ => ?_
  refine (inStep_commaList fun _ => inStep_boundColumn scope).mono fun columns columns' h => ?_
  rwa [List.forall₂_eq_eq_eq] at h

theorem inStep_direction : T.InStep d K direction direction Eq := by
  refine inStep_eat_bind (T.passes_of_ne (by simp) (by simp)) (fun _ _ => inStep_pure rfl) ?_
  exact (inStep_eat (T.passes_of_ne (by simp) (by simp))).bind fun _ _ _ => inStep_pure rfl

theorem inStep_orderItem (scope : Scope) (labels : List String) :
    T.InStep d K (orderItem scope labels) (orderItem scope labels) Eq := by
  have hdirection : ∀ {d} column, T.InStep d (fun _ => True)
      (direction >>= fun direction => pure (⟨column, direction⟩ : OrderItem))
      (direction >>= fun direction => pure (⟨column, direction⟩ : OrderItem)) Eq := by
    intro d column
    refine inStep_direction.eq_bind fun direction => ?_
    exact inStep_pure rfl
  refine inStep_currentPosition_bind fun position position' hat => ?_
  refine inStep_columnRef.eq_bind fun written => ?_
  refine inStep_ite (fun _ => ?_) fun _ => ?_
  · exact hdirection written
  · refine (inStep_inScope hat _).eq_bind fun bound => ?_
    exact hdirection bound.1

theorem inStep_orderByClause (hsorts : T.sorts = true) (scope : Scope) (labels : List String) :
    T.InStep d K (orderByClause scope labels) (orderByClause scope labels) Eq := by
  refine inStep_eat_bind ⟨by simp, fun _ => hsorts⟩ (fun _ _ => ?_) (inStep_pure rfl)
  refine (inStep_expect (T.passes_of_ne (by simp) (by simp)) _).bind fun _ _ _ => ?_
  refine (inStep_commaList fun _ => inStep_orderItem scope labels).mono fun items items' h => ?_
  rwa [List.forall₂_eq_eq_eq] at h

theorem inStep_topClause : T.InStep d K topClause topClause Eq := by
  refine inStep_eat_bind (T.passes_of_ne (by simp) (by simp)) (fun _ _ => ?_) (inStep_pure rfl)
  refine (inStep_rowCount _).eq_bind fun n => ?_
  exact inStep_pure rfl

theorem inStep_limitClause (top : Option UInt64) :
    T.InStep d K (limitClause top) (limitClause top) Eq := by
  refine inStep_isAt_bind (fun _ => ?_) (inStep_pure rfl)
  refine inStep_currentPosition_bind fun position position' hat => ?_
  refine (inStep_advance ?_).bind fun _ _ _ => (inStep_rowCount _).bind ?_
  · rintro _ rfl
    exact T.passes_of_ne (by simp) (by simp)
  · rintro n _ rfl
    exact inStep_ite (fun _ => inStep_failAt _ hat) fun _ => inStep_pure rfl

theorem inStep_refuse (word : Keyword) (fault : SyntaxFault) :
    T.InStep d K (refuse word fault) (refuse word fault) fun _ _ => True :=
  inStep_isAt_bind (fun _ => inStep_failHere _) (inStep_pure trivial)

theorem inStep_statementEnd : T.InStep d K statementEnd statementEnd fun _ _ => True := by
  have htrailing : ∀ {d K}, T.InStep d K
      (fun c => .error ⟨.trailing c.current.describe, c.current.position⟩ c : Parser Unit)
      (fun c => .error ⟨.trailing c.current.describe, c.current.position⟩ c : Parser Unit)
      fun _ _ => True := by
    intro d K c c' hc _ _
    refine .error ⟨?_, hc.at⟩
    rw [hc.current_same.describe_eq]
  refine (inStep_eat (T.passes_of_ne (by simp) (by simp))).bind fun _ _ _ => ?_
  refine inStep_currentKind_bind fun k _ => ?_
  cases k with
  | endOfInput => exact inStep_pure trivial
  | keyword word =>
    cases word with
    | union => exact inStep_failHere _
    | _ => exact htrailing
  | _ => exact htrailing

end FetchQuery.Sql
