import FetchQuery.Sql.Where
import FetchQuery.Proofs.Sql.Reading

/-!
# Reading conditions back

The lexemes of a condition are read as that condition (`reads_condition`), if its columns are
bound again to what they are and its lists are not empty. Precedence is followed level by
level: an operand in parentheses is read by the innermost parser, a negation by the one around
it, and the chains of `AND` and `OR` group to the left as they are written.
-/

set_option autoImplicit false

namespace FetchQuery.Sql

variable {good : Prop}

/-! ## Columns and literals -/

/-- A column reference as it is written where root columns carry the qualifier `root`. -/
def written (root : Option String) (c : ColumnRef) : ColumnRef :=
  ⟨c.qualifier.or root, c.name⟩

theorem reads_columnRef (root : Option String) (c : ColumnRef) {rest : List Lexeme}
    (hrest : nextKind rest ≠ some (.symbol .dot)) :
    Reads good columnRef (columnLexemes root c) rest (· = written root c) := by
  rw [columnLexemes, written, columnRef]
  cases c.qualifier.or root with
  | none =>
    refine (reads_identifier c.name).bind_nil ?_
    rintro _ rfl
    refine (reads_eat_false hrest).bind_nil ?_
    rintro _ rfl
    exact reads_pure rfl
  | some q =>
    refine Reads.bind_cons (reads_identifier q) ?_
    rintro _ rfl
    refine Reads.bind_cons (reads_eatSymbol .dot) ?_
    rintro _ rfl
    refine (reads_identifier c.name).bind_nil ?_
    rintro _ rfl
    exact reads_pure rfl

/-- A column that is bound to itself from how it is written. -/
def Rebinds (scope : Scope) (root : Option String) (c : ColumnRef) : Prop :=
  ∃ owner, scope.bind (written root c) = .ok (c, owner)

theorem reads_boundColumn {scope : Scope} {root : Option String} {c : ColumnRef}
    (h : Rebinds scope root c) {rest : List Lexeme}
    (hrest : nextKind rest ≠ some (.symbol .dot)) :
    Reads good (boundColumn scope) (columnLexemes root c) rest (· = c) := by
  obtain ⟨owner, howner⟩ := h
  apply reads_currentPosition_bind
  intro position
  refine (reads_columnRef root c hrest).bind_nil ?_
  rintro _ rfl
  rw [howner]
  exact (reads_pure (a := (c, owner)) rfl).bind_nil (by rintro _ rfl; exact reads_pure rfl)

/-- A literal is the token that follows the sign. -/
theorem Reads.literal_of_here {l : Lexeme} {rest : List Lexeme} {negative : Bool}
    {start : Position} {value : Literal}
    (h : Reads good (literalHere negative start) [] (l :: rest) (· = value)) :
    Reads good (literalHere negative start >>= fun v => advance >>= fun _ => pure v) [l] rest
      (· = value) := by
  refine Reads.bind_look h ?_
  rintro _ rfl
  exact (reads_advance l rest).bind_nil fun _ _ => reads_pure rfl

theorem reads_numberHere (d : Decimal) (start : Position) (rest : List Lexeme) :
    Reads good (literalHere d.negative start) []
      (Lexeme.ofDigits (Decimal.magnitudeChars d.mantissa d.scale) :: rest) (· = .number d) := by
  -- the sign goes back in front of the digits before they are read as a decimal
  have htext : (if d.negative then
      "-" ++ String.ofList (Decimal.magnitudeChars d.mantissa d.scale)
      else String.ofList (Decimal.magnitudeChars d.mantissa d.scale)) = d.text := by
    rw [Decimal.text, Decimal.chars]
    cases d.negative with
    | false => rfl
    | true => exact String.toList_inj.1 (by simp)
  refine reads_currentKind_bind
    (k := .number (String.ofList (Decimal.magnitudeChars d.mantissa d.scale))) rfl ?_
  simp only [htext, Decimal.parse?_text]
  exact reads_pure rfl

/-- Literals are read back. -/
theorem reads_literal (value : Literal) (rest : List Lexeme) :
    Reads good literal value.lexemes rest (· = value) := by
  apply reads_currentPosition_bind
  intro start
  cases value with
  | text content =>
    refine Reads.bind_look (reads_eat_false (by simp [Literal.lexemes])) ?_
    rintro _ rfl
    exact Reads.literal_of_here
      (reads_currentKind_bind (k := .string content) rfl (reads_pure rfl))
  | number d =>
    have hhere : Reads good (literalHere d.negative start) []
        (Lexeme.ofDigits (Decimal.magnitudeChars d.mantissa d.scale) :: rest) (· = .number d) :=
      reads_numberHere d start rest
    have hnumber := hhere.literal_of_here
    rw [Literal.lexemes]
    cases hd : d.negative with
    | true =>
      rw [hd] at hnumber
      refine Reads.bind_cons (reads_eatSymbol .minus) ?_
      rintro _ rfl
      exact hnumber
    | false =>
      rw [hd] at hnumber
      refine Reads.bind_look (reads_eat_false (by simp)) ?_
      rintro _ rfl
      exact hnumber
  | truth value =>
    cases value with
    | true =>
      refine Reads.bind_look (reads_eat_false (by simp [Literal.lexemes])) ?_
      rintro _ rfl
      exact Reads.literal_of_here
        (reads_currentKind_bind (k := .keyword .true) rfl (reads_pure rfl))
    | false =>
      refine Reads.bind_look (reads_eat_false (by simp [Literal.lexemes])) ?_
      rintro _ rfl
      exact Reads.literal_of_here
        (reads_currentKind_bind (k := .keyword .false) rfl (reads_pure rfl))

/-! ## Tests -/

/-- The test forms of SQL have at least one value to compare with. -/
def Test.HasValues : Test → Prop
  | .among values => values ≠ []
  | _ => True

/-- The lexemes of a literal begin neither with a reserved `NULL` nor with a name. -/
theorem nextKind_literal (value : Literal) (rest : List Lexeme) :
    ∃ k, nextKind (value.lexemes ++ rest) = some k ∧ beginsLiteral k = true := by
  cases value with
  | text content => exact ⟨.string content, rfl, rfl⟩
  | number d =>
    rw [Literal.lexemes]
    cases d.negative with
    | true => exact ⟨.symbol .minus, rfl, rfl⟩
    | false => exact ⟨.number _, rfl, rfl⟩
  | truth value => cases value <;> exact ⟨_, rfl, rfl⟩

theorem reads_comparison (op : Comparison) (value : Literal) (rest : List Lexeme) :
    Reads good (comparison op) (Lexeme.ofSymbol op.symbol :: value.lexemes) rest
      (· = .compare op value) := by
  refine Reads.bind_cons (reads_advance _ _) fun _ _ => ?_
  obtain ⟨k, hk, hbegins⟩ := nextKind_literal value rest
  refine reads_currentKind_bind hk ?_
  have hvalue : Reads good (literal >>= fun v => pure (Test.compare op v)) value.lexemes rest
      (· = .compare op value) :=
    (reads_literal value rest).bind_nil (by rintro _ rfl; exact reads_pure rfl)
  split
  · exact absurd hbegins (by decide)
  · next name => exact absurd hbegins (by simp [beginsLiteral])
  · exact hvalue

theorem reads_nullTest (expected : Bool) (rest : List Lexeme) :
    Reads good nullTest (testLexemes false (.null expected)) rest (· = .null expected) := by
  refine Reads.bind_cons (reads_advance _ _) fun _ _ => ?_
  cases expected with
  | true =>
    refine Reads.bind_look (reads_eat_false (by simp)) ?_
    rintro _ rfl
    exact (reads_expectKeyword .null).bind_nil fun _ _ => reads_pure rfl
  | false =>
    refine Reads.bind_cons (reads_eatKeyword .not) ?_
    rintro _ rfl
    exact (reads_expectKeyword .null).bind_nil fun _ _ => reads_pure rfl

theorem reads_amongTest {values : List Literal} (h : values ≠ []) (rest : List Lexeme) :
    Reads good amongTest (Lexeme.ofKeyword .in :: Lexeme.ofSymbol .openParen ::
      (commaLexemes (values.map Literal.lexemes) ++ [Lexeme.ofSymbol .closeParen])) rest
      (· = .among values) := by
  refine Reads.bind_cons (reads_advance _ _) fun _ _ => ?_
  refine Reads.bind_cons (reads_expectSymbol .openParen)
    fun _ _ => ?_
  have hlist : Reads good (commaList literal) (commaLexemes (values.map Literal.lexemes))
      (Lexeme.ofSymbol .closeParen :: rest) (· = values) :=
    reads_commaList_eq (fun _ => True) trivial trivial (by simp) h
      fun value _ r _ => reads_literal value r
  -- the first literal tells the list from a query in parentheses
  obtain ⟨value, others, rfl⟩ := List.exists_cons_of_ne_nil h
  obtain ⟨k, hk, hbegins⟩ := nextKind_literal value
    ((others.map Literal.lexemes).flatMap (Lexeme.ofSymbol .comma :: ·) ++
      Lexeme.ofSymbol .closeParen :: rest)
  refine reads_isAt_bind (k := k) ?_ ?_
  · rw [← hk, List.map_cons, commaLexemes_cons]
    simp
  · have hselect : k ≠ .keyword .select := by
      rintro rfl
      exact absurd hbegins (by decide)
    rw [beq_false_of_ne hselect, if_neg Bool.false_ne_true]
    refine hlist.bind ?_
    rintro _ rfl
    exact (reads_expectSymbol .closeParen).bind_nil fun _ _ => reads_pure rfl

theorem reads_betweenTest (low high : Literal) (rest : List Lexeme) :
    Reads good betweenTest
      (Lexeme.ofKeyword .between :: (low.lexemes ++ Lexeme.ofKeyword .and :: high.lexemes)) rest
      (· = .between low high) := by
  refine Reads.bind_cons (reads_advance _ _) fun _ _ => ?_
  refine (reads_literal low _).bind ?_
  rintro _ rfl
  refine Reads.bind_cons (reads_expectKeyword .and) fun _ _ => ?_
  refine (reads_literal high rest).bind_nil ?_
  rintro _ rfl
  exact reads_pure rfl

theorem reads_likeTest (pattern : String) (rest : List Lexeme) :
    Reads good likeTest [Lexeme.ofKeyword .like, Lexeme.ofString pattern] rest
      (· = .like pattern) := by
  refine Reads.bind_cons (reads_advance _ _) fun _ _ => ?_
  refine reads_currentKind_bind (k := .string pattern) rfl ?_
  exact (reads_consume _ rest).bind_nil fun _ _ => reads_pure rfl

/-- The tests that begin with a reserved word of their own are those with a negated form. -/
theorem reads_wordTest {test : Test} (hform : hasNegatedForm test = true)
    (hvalues : Test.HasValues test) (otherwise : Expectation) (rest : List Lexeme) :
    Reads good (wordTest otherwise) (testLexemes false test) rest (· = test) := by
  cases test with
  | compare op value => exact absurd hform (by simp [hasNegatedForm])
  | null expected => exact absurd hform (by simp [hasNegatedForm])
  | among values =>
    exact reads_currentKind_bind (k := .keyword .in) rfl (reads_amongTest hvalues rest)
  | between low high =>
    exact reads_currentKind_bind (k := .keyword .between) rfl (reads_betweenTest low high rest)
  | like pattern =>
    exact reads_currentKind_bind (k := .keyword .like) rfl (reads_likeTest pattern rest)

theorem testLexemes_true {test : Test} (hform : hasNegatedForm test = true) :
    testLexemes true test = Lexeme.ofKeyword .not :: testLexemes false test := by
  cases test with
  | compare op value => exact absurd hform (by simp [hasNegatedForm])
  | null expected => exact absurd hform (by simp [hasNegatedForm])
  | among values => rfl
  | between low high => rfl
  | like pattern => rfl

theorem comparisonOf?_symbol (op : Comparison) :
    comparisonOf? (.symbol op.symbol) = some op := by
  cases op <;> rfl

/-- A test behind its column is read back. -/
theorem reads_columnTest (column : ColumnRef) {test : Test} (hvalues : Test.HasValues test)
    (rest : List Lexeme) :
    Reads good (columnTest column) (testLexemes false test) rest (· = .test column test) := by
  -- `IN`, `BETWEEN` and `LIKE` go through one function, with and without `NOT`
  have hword : hasNegatedForm test = true → Reads good
      (wordTest (.operatorAfterColumn column) >>= fun t => pure (Condition.test column t))
      (testLexemes false test) rest (· = .test column test) := fun hform =>
    (reads_wordTest hform hvalues _ rest).bind_nil (by rintro _ rfl; exact reads_pure rfl)
  cases test with
  | compare op value =>
    refine reads_currentKind_bind (k := .symbol op.symbol) rfl ?_
    simp only [comparisonOf?_symbol]
    refine (reads_comparison op value rest).bind_nil ?_
    rintro _ rfl
    exact reads_pure rfl
  | null expected =>
    refine reads_currentKind_bind (k := .keyword .is) rfl ?_
    refine (reads_nullTest expected rest).bind_nil ?_
    rintro _ rfl
    exact reads_pure rfl
  | among values => exact reads_currentKind_bind (k := .keyword .in) rfl (hword rfl)
  | between low high => exact reads_currentKind_bind (k := .keyword .between) rfl (hword rfl)
  | like pattern => exact reads_currentKind_bind (k := .keyword .like) rfl (hword rfl)

/-- A test in its negated form is read as the negation of the test. -/
theorem reads_columnTest_not (column : ColumnRef) {test : Test}
    (hform : hasNegatedForm test = true) (hvalues : Test.HasValues test) (rest : List Lexeme) :
    Reads good (columnTest column) (testLexemes true test) rest (· = .not (.test column test)) := by
  rw [testLexemes_true hform]
  refine reads_currentKind_bind (k := .keyword .not) rfl ?_
  refine Reads.bind_cons (reads_advance _ _) fun _ _ => ?_
  refine (reads_wordTest hform hvalues _ rest).bind_nil ?_
  rintro _ rfl
  exact reads_pure rfl

/-! ## Precedence -/

/-- How tightly the lexemes of a condition bind when nothing is around them. -/
def bindingLevel : Condition → Nat
  | .test _ _ => 4
  | .binary op _ _ => connectiveLevel op
  | .not (.test _ test) => if hasNegatedForm test then 4 else 3
  | .not _ => 3

/-- A negation without a form of its own is written with a leading `NOT`. -/
theorem conditionLexemes_not {root : Option String} {inner : Condition}
    (h : bindingLevel (.not inner) = 3) (around : Nat) :
    conditionLexemes root (.not inner) around =
      groupLexemes 3 around (Lexeme.ofKeyword .not :: conditionLexemes root inner 4) := by
  cases inner with
  | test column test =>
    have hform : hasNegatedForm test ≠ true := fun hform => by simp [bindingLevel, hform] at h
    simp only [conditionLexemes, if_neg hform]
  | binary op left right => rfl
  | not inner => rfl

/-- A negation that binds tighter is a test in its negated form. -/
theorem exists_test_of_bindingLevel {inner : Condition} (h : bindingLevel (.not inner) ≠ 3) :
    ∃ column test, inner = .test column test ∧ hasNegatedForm test = true := by
  cases inner with
  | test column test =>
    refine ⟨column, test, rfl, ?_⟩
    by_contra hform
    simp [bindingLevel, hform] at h
  | binary op left right => exact absurd rfl h
  | not inner => exact absurd rfl h

theorem groupLexemes_zero (level : Nat) (ls : List Lexeme) : groupLexemes level 0 ls = ls :=
  if_neg (Nat.not_lt_zero level)

theorem conditionLexemes_eq (root : Option String) (e : Condition) {around : Nat}
    (h : around ≤ 4) :
    conditionLexemes root e around =
      groupLexemes (bindingLevel e) around (conditionLexemes root e 0) := by
  have htight : ∀ ls, groupLexemes 4 around ls = ls := fun ls => if_neg (by omega)
  cases e with
  | test column test => rw [bindingLevel, htight, conditionLexemes, conditionLexemes]
  | binary op left right =>
    rw [bindingLevel, conditionLexemes, conditionLexemes, groupLexemes_zero]
  | not inner =>
    by_cases hlevel : bindingLevel (.not inner) = 3
    · rw [conditionLexemes_not hlevel, conditionLexemes_not hlevel, hlevel, groupLexemes_zero]
    · obtain ⟨column, test, rfl, hform⟩ := exists_test_of_bindingLevel hlevel
      rw [bindingLevel, conditionLexemes, conditionLexemes, if_pos hform, if_pos hform,
        if_pos hform, htight]

theorem bindingLevel_binary_lt (op : Connective) (left right : Condition) :
    bindingLevel (.binary op left right) < 3 := by
  cases op <;> simp [bindingLevel, connectiveLevel]

theorem bindingLevel_not_ge (inner : Condition) : 3 ≤ bindingLevel (.not inner) := by
  by_cases h : bindingLevel (.not inner) = 3
  · exact Nat.le_of_eq h.symm
  · obtain ⟨column, test, rfl, hform⟩ := exists_test_of_bindingLevel h
    simp [bindingLevel, hform]

theorem bindingLevel_ne_zero (e : Condition) : bindingLevel e ≠ 0 := by
  cases e with
  | test column test => simp [bindingLevel]
  | binary op left right => cases op <;> simp [bindingLevel, connectiveLevel]
  | not inner =>
    have hge := bindingLevel_not_ge inner
    omega

/-- Only a condition that binds exactly at a level is written differently one level up. -/
theorem conditionLexemes_succ (root : Option String) {e : Condition} {around : Nat}
    (hlevel : bindingLevel e ≠ around) (h : around < 4) :
    conditionLexemes root e around = conditionLexemes root e (around + 1) := by
  rw [conditionLexemes_eq root e (Nat.le_of_lt h), conditionLexemes_eq root e h, groupLexemes,
    groupLexemes]
  by_cases hlt : bindingLevel e < around
  · rw [if_pos hlt, if_pos (by omega)]
  · rw [if_neg hlt, if_neg (by omega)]

/-- Columns that are bound again to themselves, and lists that are not empty. -/
def Readable (scope : Scope) (root : Option String) (e : Condition) : Prop :=
  ∀ t ∈ e.tests, Rebinds scope root t.1 ∧ Test.HasValues t.2

section Levels

variable {scope : Scope} {root : Option String}

theorem readable_test {column : ColumnRef} {test : Test}
    (h : Readable scope root (.test column test)) :
    Rebinds scope root column ∧ Test.HasValues test :=
  h (column, test) (by simp [Condition.tests])

theorem readable_left {op : Connective} {left right : Condition}
    (h : Readable scope root (.binary op left right)) : Readable scope root left :=
  fun t ht => h t (by simp [Condition.tests, ht])

theorem readable_right {op : Connective} {left right : Condition}
    (h : Readable scope root (.binary op left right)) : Readable scope root right :=
  fun t ht => h t (by simp [Condition.tests, ht])

theorem readable_inner {inner : Condition} (h : Readable scope root (.not inner)) :
    Readable scope root inner :=
  h

theorem columnLexemes_cons (root : Option String) (c : ColumnRef) :
    ∃ name ls, columnLexemes root c = Lexeme.ofName name :: ls := by
  rw [columnLexemes]
  cases c.qualifier.or root with
  | none => exact ⟨c.name, [], rfl⟩
  | some q => exact ⟨q, _, rfl⟩

theorem testLexemes_ne_dot (negated : Bool) (test : Test) (rest : List Lexeme) :
    nextKind (testLexemes negated test ++ rest) ≠ some (.symbol .dot) := by
  cases test with
  | compare op value => cases op <;> simp [testLexemes, Comparison.symbol]
  | null expected => simp [testLexemes]
  | among values => cases negated <;> simp [testLexemes]
  | between low high => cases negated <;> simp [testLexemes]
  | like pattern => cases negated <;> simp [testLexemes]

/-- A test of a column is read by the column in front. -/
theorem reads_predicate_column (inner : Parser Condition) {column : ColumnRef}
    (hcolumn : Rebinds scope root column) {negated : Bool} {test : Test} {e : Condition}
    {rest : List Lexeme}
    (htest : Reads good (columnTest column) (testLexemes negated test) rest (· = e)) :
    Reads good (predicate scope inner) (columnLexemes root column ++ testLexemes negated test) rest
      (· = e) := by
  have hboth : Reads good (boundColumn scope >>= columnTest)
      (columnLexemes root column ++ testLexemes negated test) rest (· = e) := by
    refine (reads_boundColumn hcolumn (testLexemes_ne_dot negated test rest)).bind ?_
    rintro _ rfl
    exact htest
  obtain ⟨name, ls, hls⟩ := columnLexemes_cons root column
  rw [hls, List.cons_append] at hboth ⊢
  apply reads_of_name
  intro hname
  have hkind := Lexeme.ofName_kind hname
  refine Reads.bind_look (reads_eat_false (by simp [hkind])) ?_
  rintro _ rfl
  exact reads_currentKind_bind (k := .identifier name) (by simp [hkind]) hboth

theorem nextKind_column (column : ColumnRef) (rest : List Lexeme) (k : Keyword) :
    nextKind (columnLexemes root column ++ rest) ≠ some (.keyword k) := by
  obtain ⟨name, tail, htail⟩ := columnLexemes_cons root column
  have hname : (Lexeme.ofName name).kind ≠ .keyword k :=
    Lexeme.kind_ofName_ne name (by simp) (by simp)
  simpa [htail] using hname

theorem nextKind_group (level around : Nat) (ls rest : List Lexeme) {k : Keyword}
    (h : ∀ rest, nextKind (ls ++ rest) ≠ some (.keyword k)) :
    nextKind (groupLexemes level around ls ++ rest) ≠ some (.keyword k) := by
  rw [groupLexemes]
  split
  · simp
  · exact h rest

/-- A condition begins with a parenthesis, a name or `NOT`. -/
theorem nextKind_condition (e : Condition) (around : Nat) (rest : List Lexeme) (k : Keyword)
    (hk : k ≠ .not) : nextKind (conditionLexemes root e around ++ rest) ≠ some (.keyword k) := by
  induction e generalizing around rest with
  | test column test =>
    rw [conditionLexemes, List.append_assoc]
    exact nextKind_column column _ k
  | binary op left right ihl _ =>
    apply nextKind_group
    intro rest
    rw [List.append_assoc]
    exact ihl _ _
  | not inner =>
    by_cases hlevel : bindingLevel (.not inner) = 3
    · rw [conditionLexemes_not hlevel]
      apply nextKind_group
      intro rest
      simpa using hk.symm
    · obtain ⟨column, test, rfl, hform⟩ := exists_test_of_bindingLevel hlevel
      rw [conditionLexemes, if_pos hform, List.append_assoc]
      exact nextKind_column column _ k

/-- An operand begins with a parenthesis or a name. -/
theorem nextKind_operand (e : Condition) (rest : List Lexeme) (k : Keyword) :
    nextKind (conditionLexemes root e 4 ++ rest) ≠ some (.keyword k) := by
  by_cases hlevel : bindingLevel e < 4
  · rw [conditionLexemes_eq root e (Nat.le_refl 4), groupLexemes, if_pos hlevel]
    simp
  · cases e with
    | test column test =>
      rw [conditionLexemes, List.append_assoc]
      exact nextKind_column column _ k
    | binary op left right =>
      have := bindingLevel_binary_lt op left right
      omega
    | not e =>
      have hne : bindingLevel (.not e) ≠ 3 := by omega
      obtain ⟨column, test, rfl, hform⟩ := exists_test_of_bindingLevel hne
      rw [conditionLexemes, if_pos hform, List.append_assoc]
      exact nextKind_column column _ k

/-- An operand is a test, or a condition in parentheses that is read by the parser within. -/
theorem reads_predicate {inner : Parser Condition} {depth : Nat}
    (hinner : ∀ e rest, Readable scope root e → (conditionLexemes root e 0).length ≤ depth →
      nextKind rest = some (.symbol .closeParen) →
      Reads good inner (conditionLexemes root e 0) rest (· = e))
    {e : Condition} (he : Readable scope root e)
    (hlen : (conditionLexemes root e 4).length ≤ depth + 1) (rest : List Lexeme) :
    Reads good (predicate scope inner) (conditionLexemes root e 4) rest (· = e) := by
  -- whatever binds looser than an operand stands in parentheses
  have hgroup : bindingLevel e < 4 →
      Reads good (predicate scope inner) (conditionLexemes root e 4) rest (· = e) := by
    intro hlevel
    rw [conditionLexemes_eq root e (Nat.le_refl 4), groupLexemes, if_pos hlevel] at hlen ⊢
    rw [List.length_cons, List.length_append] at hlen
    refine Reads.bind_cons (reads_eatSymbol .openParen) ?_
    rintro _ rfl
    have hselect : nextKind (conditionLexemes root e 0 ++ [Lexeme.ofSymbol .closeParen] ++ rest) ≠
        some (.keyword .select) := by
      rw [List.append_assoc]
      exact nextKind_condition e 0 _ .select (by decide)
    refine reads_isAt_ne_bind hselect ?_
    refine (hinner e _ he (by omega) rfl).bind ?_
    rintro _ rfl
    exact (reads_expectSymbol .closeParen).bind_nil fun _ _ => reads_pure rfl
  cases e with
  | test column test =>
    obtain ⟨hcolumn, hvalues⟩ := readable_test he
    exact reads_predicate_column inner hcolumn (reads_columnTest column hvalues rest)
  | binary op left right => exact hgroup (by have := bindingLevel_binary_lt op left right; omega)
  | not e =>
    by_cases hlevel : bindingLevel (.not e) = 3
    · exact hgroup (by omega)
    · obtain ⟨column, test, rfl, hform⟩ := exists_test_of_bindingLevel hlevel
      obtain ⟨hcolumn, hvalues⟩ := readable_test (readable_inner he)
      rw [conditionLexemes, if_pos hform]
      exact reads_predicate_column inner hcolumn (reads_columnTest_not column hform hvalues rest)

theorem reads_negation_none {operand : Parser Condition} {ls rest : List Lexeme}
    {Q : Condition → Prop} (h : Reads good operand ls rest Q)
    (hnext : nextKind (ls ++ rest) ≠ some (.keyword .not)) (n : Nat) :
    Reads good (negation operand n) ls rest Q := by
  cases n with
  | zero => exact h
  | succ n =>
    refine Reads.bind_look (reads_eat_false hnext) ?_
    rintro _ rfl
    exact h

/-- A negation is one `NOT` before an operand: a second one would stand in parentheses. -/
theorem reads_negations {operand : Parser Condition} {bound : Nat}
    (hoperand : ∀ e rest, Readable scope root e → (conditionLexemes root e 4).length ≤ bound →
      Reads good operand (conditionLexemes root e 4) rest (· = e))
    {e : Condition} (he : Readable scope root e)
    (hlen : (conditionLexemes root e 3).length ≤ bound) (rest : List Lexeme) :
    Reads good (negations operand) (conditionLexemes root e 3) rest (· = e) := by
  apply reads_remaining_bind
  intro n hn
  -- all but a leading `NOT` is written here as it is for an operand
  have hplain : bindingLevel e ≠ 3 →
      Reads good (negation operand n) (conditionLexemes root e 3) rest (· = e) := by
    intro hlevel
    rw [conditionLexemes_succ root hlevel (by decide)] at hlen ⊢
    exact reads_negation_none (hoperand e rest he hlen) (nextKind_operand e rest .not) n
  cases e with
  | test column test => exact hplain (by simp [bindingLevel])
  | binary op left right => exact hplain (by have := bindingLevel_binary_lt op left right; omega)
  | not e =>
    by_cases hlevel : bindingLevel (.not e) = 3
    · rw [conditionLexemes_not hlevel, groupLexemes, if_neg (by decide)] at hlen hn ⊢
      rw [List.length_cons] at hlen hn
      obtain ⟨n, rfl⟩ := Nat.exists_eq_succ_of_ne_zero (n := n) (by omega)
      refine Reads.bind_cons (reads_eatKeyword .not) ?_
      rintro _ rfl
      have he' := hoperand e rest (readable_inner he) (by omega)
      refine (reads_negation_none he' (nextKind_operand e rest .not) n).bind_nil ?_
      rintro _ rfl
      exact reads_pure rfl
    · exact hplain hlevel

/-- What follows cannot go on with a connective that binds at least as tightly as `level`. -/
def EndsOperand (level : Nat) (next : Option TokenKind) : Prop :=
  ∀ op, level ≤ connectiveLevel op → next ≠ some (.keyword op.keyword)

theorem EndsOperand.mono {level level' : Nat} {next : Option TokenKind}
    (h : EndsOperand level next) (hle : level ≤ level') : EndsOperand level' next :=
  fun op hop => h op (Nat.le_trans hle hop)

/-- A connective ends the operands that bind tighter. -/
theorem endsOperand_connective (op : Connective) :
    EndsOperand (connectiveLevel op + 1) (some (.keyword op.keyword)) := by
  intro other hother
  cases op <;> cases other <;> simp_all [connectiveLevel, Connective.keyword]

/-- A chain begins with an operand that binds tighter than its connective. -/
theorem reads_chain_first {op : Connective} {operand : Parser Condition} {bound : Nat}
    (hoperand : ∀ e rest, Readable scope root e →
      (conditionLexemes root e (connectiveLevel op + 1)).length ≤ bound →
      EndsOperand (connectiveLevel op + 1) (nextKind rest) →
      Reads good operand (conditionLexemes root e (connectiveLevel op + 1)) rest (· = e))
    {e : Condition} (he : Readable scope root e) (hlevel : bindingLevel e ≠ connectiveLevel op)
    (hlen : (conditionLexemes root e (connectiveLevel op)).length ≤ bound)
    {more rest : List Lexeme} {Q : Condition → Prop}
    (hnext : EndsOperand (connectiveLevel op + 1) (nextKind (more ++ rest)))
    (hmore : ∀ n, more.length ≤ n → Reads good (operands op operand n e) more rest Q) :
    Reads good (chain op operand) (conditionLexemes root e (connectiveLevel op) ++ more) rest Q := by
  have hop : connectiveLevel op < 4 := by cases op <;> decide
  rw [conditionLexemes_succ root hlevel hop] at hlen ⊢
  refine (hoperand e _ he hlen hnext).bind ?_
  rintro _ rfl
  exact reads_remaining_bind hmore

/-- Operands of a connective are read onto each other from the left. The induction follows the
left operands, so the lexemes `more` that are still to come are carried along with what
reading them yields. -/
theorem reads_chain_append {op : Connective} {operand : Parser Condition} {bound : Nat}
    (hoperand : ∀ e rest, Readable scope root e →
      (conditionLexemes root e (connectiveLevel op + 1)).length ≤ bound →
      EndsOperand (connectiveLevel op + 1) (nextKind rest) →
      Reads good operand (conditionLexemes root e (connectiveLevel op + 1)) rest (· = e))
    {e : Condition} (he : Readable scope root e)
    (hlen : (conditionLexemes root e (connectiveLevel op)).length ≤ bound)
    (more : List Lexeme) {rest : List Lexeme} {Q : Condition → Prop}
    (hnext : EndsOperand (connectiveLevel op + 1) (nextKind (more ++ rest)))
    (hmore : ∀ n, more.length ≤ n → Reads good (operands op operand n e) more rest Q) :
    Reads good (chain op operand) (conditionLexemes root e (connectiveLevel op) ++ more) rest Q := by
  have hop : connectiveLevel op < 3 := by cases op <;> decide
  induction e generalizing more Q with
  | test column test =>
    exact reads_chain_first hoperand he (by simp only [bindingLevel]; omega) hlen hnext hmore
  | not inner =>
    have hge := bindingLevel_not_ge inner
    exact reads_chain_first hoperand he (by omega) hlen hnext hmore
  | binary op' left right ihl _ =>
    by_cases heq : op' = op
    · -- the right operand is the first of the lexemes still to come for the left one
      subst heq
      rw [conditionLexemes, groupLexemes, if_neg (Nat.lt_irrefl _), List.length_append,
        List.length_cons] at hlen
      rw [conditionLexemes, groupLexemes, if_neg (Nat.lt_irrefl _), List.append_assoc]
      refine ihl (readable_left he) (by omega) _ (endsOperand_connective op') ?_
      intro n hn
      rw [List.cons_append, List.length_cons, List.length_append] at hn
      obtain ⟨n, rfl⟩ := Nat.exists_eq_succ_of_ne_zero (n := n) (by omega)
      refine Reads.bind_cons (reads_eatKeyword op'.keyword) ?_
      rintro _ rfl
      refine (hoperand right _ (readable_right he) (by omega) hnext).bind ?_
      rintro _ rfl
      exact hmore n (by omega)
    · -- the other connective binds tighter, or stands in parentheses
      refine reads_chain_first hoperand he ?_ hlen hnext hmore
      cases op <;> cases op' <;> simp_all [bindingLevel, connectiveLevel]

/-- A chain of operands is read back where nothing goes on with its connective. -/
theorem reads_chain (op : Connective) {operand : Parser Condition} {bound : Nat}
    (hoperand : ∀ e rest, Readable scope root e →
      (conditionLexemes root e (connectiveLevel op + 1)).length ≤ bound →
      EndsOperand (connectiveLevel op + 1) (nextKind rest) →
      Reads good operand (conditionLexemes root e (connectiveLevel op + 1)) rest (· = e))
    {e : Condition} (he : Readable scope root e)
    (hlen : (conditionLexemes root e (connectiveLevel op)).length ≤ bound) {rest : List Lexeme}
    (hrest : EndsOperand (connectiveLevel op) (nextKind rest)) :
    Reads good (chain op operand) (conditionLexemes root e (connectiveLevel op)) rest (· = e) := by
  -- the chain ends here: what follows is not its connective
  have hend : ∀ n, Reads good (operands op operand n e) [] rest (· = e) := by
    intro n
    cases n with
    | zero => exact reads_pure rfl
    | succ n =>
      refine (reads_eat_false (hrest op (Nat.le_refl _))).bind_nil ?_
      rintro _ rfl
      exact reads_pure rfl
  have hchain := reads_chain_append hoperand he hlen [] (hrest.mono (Nat.le_succ _))
    fun n _ => hend n
  rwa [List.append_nil] at hchain

theorem conditionLexemes_length_pos (e : Condition) :
    0 < (conditionLexemes root e 0).length := by
  cases e with
  | test column test =>
    obtain ⟨name, ls, hls⟩ := columnLexemes_cons root column
    simp [conditionLexemes, hls]
  | binary op left right =>
    rw [conditionLexemes, groupLexemes_zero, List.length_append, List.length_cons]
    omega
  | not inner =>
    by_cases hlevel : bindingLevel (.not inner) = 3
    · simp [conditionLexemes_not hlevel, groupLexemes]
    · obtain ⟨column, test, rfl, hform⟩ := exists_test_of_bindingLevel hlevel
      obtain ⟨name, ls, hls⟩ := columnLexemes_cons root column
      simp [conditionLexemes, hform, hls]

/-- Within enough parentheses a condition is read back. -/
theorem reads_conditionWithin (depth : Nat) {e : Condition} (he : Readable scope root e)
    (hlen : (conditionLexemes root e 0).length ≤ depth) {rest : List Lexeme}
    (hrest : EndsOperand 1 (nextKind rest)) :
    Reads good (conditionWithin scope depth) (conditionLexemes root e 0) rest (· = e) := by
  -- every pair of parentheses takes two lexemes, so their number bounds the depth
  induction depth generalizing e rest with
  | zero =>
    have hpos : 0 < (conditionLexemes root e 0).length := conditionLexemes_length_pos e
    omega
  | succ depth ih =>
    have hinner : ∀ e rest, Readable scope root e → (conditionLexemes root e 0).length ≤ depth →
        nextKind rest = some (.symbol .closeParen) →
        Reads good (conditionWithin scope depth) (conditionLexemes root e 0) rest (· = e) :=
      fun e rest he hlen hrest => ih he hlen (by intro op _; simp [hrest])
    have hoperand : ∀ e rest, Readable scope root e →
        (conditionLexemes root e 4).length ≤ depth + 1 →
        Reads good (predicate scope (conditionWithin scope depth)) (conditionLexemes root e 4) rest
          (· = e) := fun e rest he hlen => reads_predicate hinner he hlen rest
    have hand : ∀ e rest, Readable scope root e →
        (conditionLexemes root e 2).length ≤ depth + 1 → EndsOperand 2 (nextKind rest) →
        Reads good (chain .and (negations (predicate scope (conditionWithin scope depth))))
          (conditionLexemes root e 2) rest (· = e) := fun e rest he hlen hrest =>
      reads_chain .and (fun e rest he hlen _ => reads_negations hoperand he hlen rest) he
        hlen hrest
    -- nothing binds looser than `OR`, so a condition is written alike at the levels 0 and 1
    rw [conditionLexemes_succ root (bindingLevel_ne_zero e) (by decide)] at hlen ⊢
    exact reads_chain .or hand he hlen hrest

/-- The lexemes of a condition are read as the condition. -/
theorem reads_condition {e : Condition} (he : Readable scope root e) {rest : List Lexeme}
    (hrest : EndsOperand 1 (nextKind rest)) :
    Reads good (condition scope) (conditionLexemes root e 0) rest (· = e) :=
  reads_remaining_bind fun n hn => reads_conditionWithin (n + 1) he (Nat.le_succ_of_le hn) hrest

end Levels

end FetchQuery.Sql
