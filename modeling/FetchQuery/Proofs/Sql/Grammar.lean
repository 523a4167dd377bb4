import FetchQuery.Proofs.Sql.Passing
import FetchQuery.Sql.Where

/-!
# The grammar of conditions

The phrases of a condition as relations between the kinds of tokens and what they mean: the signs
of comparisons (`Sign`), literals (`ValuePhrase`), columns (`ColumnPhrase`) and what may follow a
column (`TestPhrase`). On top of them `Derives` has one level for every precedence: connectives of
either kind, negations, predicates. A chain of operands grows at its right end, so `AND` and `OR`
group to the left.

The parsers of single phrases succeed exactly on the phrases: `sign_iff`, `literal_eq_ok`,
`boundColumn_eq_ok`, `columnTest_eq_ok`.
-/

set_option autoImplicit false

namespace FetchQuery

/-- The tokens of a column. -/
def ColumnRef.kinds : ColumnRef → List TokenKind
  | ⟨none, name⟩ => [.identifier name]
  | ⟨some q, name⟩ => [.identifier q, .symbol .dot, .identifier name]

namespace Sql

/-! ## Phrases -/

/-- The signs of comparisons, each with its operator for a column before the sign and with its
operator for a column behind it. -/
inductive Sign : TokenKind → Comparison → Comparison → Prop
  | equal : Sign (.symbol .equal) .eq .eq
  | notEqual : Sign (.symbol .notEqual) .ne .ne
  | less : Sign (.symbol .less) .lt .gt
  | lessEqual : Sign (.symbol .lessEqual) .le .ge
  | greater : Sign (.symbol .greater) .gt .lt
  | greaterEqual : Sign (.symbol .greaterEqual) .ge .le

/-- The words of the connectives. -/
inductive Joiner : TokenKind → Connective → Prop
  | and : Joiner (.keyword .and) .and
  | or : Joiner (.keyword .or) .or

/-- Literals: numbers in range with a minus sign or without, strings and truth values. -/
inductive ValuePhrase : List TokenKind → Literal → Prop
  | number {digits : String} {d : Decimal} (h : Decimal.parse? digits = some d) :
    ValuePhrase [.number digits] (.number d)
  | negative {digits : String} {d : Decimal} (h : Decimal.parse? ("-" ++ digits) = some d) :
    ValuePhrase [.symbol .minus, .number digits] (.number d)
  | text (content : String) : ValuePhrase [.string content] (.text content)
  | yes : ValuePhrase [.keyword .true] (.truth true)
  | no : ValuePhrase [.keyword .false] (.truth false)

/-- Columns that the scope binds, with the columns that they are bound to. -/
inductive ColumnPhrase (scope : Scope) : List TokenKind → ColumnRef → Prop
  | bound (written : ColumnRef) {column : ColumnRef} {owner : Binding}
    (h : scope.bind written = .ok (column, owner)) : ColumnPhrase scope written.kinds column

/-- Tests that may follow `NOT`. -/
inductive WordPhrase : List TokenKind → Test → Prop
  | like (pattern : String) : WordPhrase [.keyword .like, .string pattern] (.like pattern)
  | among {p : List TokenKind} {values : List Literal} (h : Separated ValuePhrase p values) :
    WordPhrase (.keyword .in :: .symbol .openParen :: (p ++ [.symbol .closeParen])) (.among values)
  | between {p q : List TokenKind} {low high : Literal} (hlow : ValuePhrase p low)
    (hhigh : ValuePhrase q high) :
    WordPhrase (.keyword .between :: (p ++ .keyword .and :: q)) (.between low high)

/-- Conditions on a column, without the column. -/
inductive TestPhrase (column : ColumnRef) : List TokenKind → Condition → Prop
  | compare {k : TokenKind} {op mirrored : Comparison} {p : List TokenKind} {value : Literal}
    (hsign : Sign k op mirrored) (hvalue : ValuePhrase p value) :
    TestPhrase column (k :: p) (.test column (.compare op value))
  | null : TestPhrase column [.keyword .is, .keyword .null] (.test column (.null true))
  | notNull :
    TestPhrase column [.keyword .is, .keyword .not, .keyword .null] (.test column (.null false))
  | word {p : List TokenKind} {test : Test} (h : WordPhrase p test) :
    TestPhrase column p (.test column test)
  | notWord {p : List TokenKind} {test : Test} (h : WordPhrase p test) :
    TestPhrase column (.keyword .not :: p) (.not (.test column test))

/-! ## Levels of precedence -/

/-- The levels of precedence: operands joined by a connective, operands behind `NOT`, and
predicates. -/
inductive Level where
  | chain (op : Connective)
  | negation
  | predicate

/-- The level of the operands of a connective: `AND` binds tighter than `OR`, and `NOT` tighter than
`AND`. -/
def Level.operand : Connective → Level
  | .or => .chain .and
  | .and => .negation

/-- The token lists that spell conditions of a level. -/
inductive Derives (scope : Scope) : Level → List TokenKind → Condition → Prop
  | first {op : Connective} {p : List TokenKind} {e : Condition}
    (h : Derives scope (.operand op) p e) : Derives scope (.chain op) p e
  | join {op : Connective} {k : TokenKind} {p q : List TokenKind} {left right : Condition}
    (hleft : Derives scope (.chain op) p left) (hjoiner : Joiner k op)
    (hright : Derives scope (.operand op) q right) :
    Derives scope (.chain op) (p ++ k :: q) (.binary op left right)
  | not {p : List TokenKind} {e : Condition} (h : Derives scope .negation p e) :
    Derives scope .negation (.keyword .not :: p) (.not e)
  | single {p : List TokenKind} {e : Condition} (h : Derives scope .predicate p e) :
    Derives scope .negation p e
  | group {p : List TokenKind} {e : Condition} (h : Derives scope (.chain .or) p e) :
    Derives scope .predicate (.symbol .openParen :: (p ++ [.symbol .closeParen])) e
  | columnFirst {p q : List TokenKind} {column : ColumnRef} {e : Condition}
    (hcolumn : ColumnPhrase scope p column) (htest : TestPhrase column q e) :
    Derives scope .predicate (p ++ q) e
  | valueFirst {p q : List TokenKind} {k : TokenKind} {op mirrored : Comparison}
    {column : ColumnRef} {value : Literal} (hvalue : ValuePhrase p value)
    (hsign : Sign k op mirrored) (hcolumn : ColumnPhrase scope q column) :
    Derives scope .predicate (p ++ k :: q) (.test column (.compare mirrored value))

/-! ## Signs and connectives -/

/-- A sign is recognized as the operator it stands for, and exchanging the operands mirrors it. -/
theorem sign_iff {k : TokenKind} {op mirrored : Comparison} :
    Sign k op mirrored ↔ comparisonOf? k = some op ∧ mirrored = op.flip := by
  constructor
  · intro h
    cases h <;> exact ⟨rfl, rfl⟩
  · rintro ⟨h, rfl⟩
    cases k with
    | symbol sign => cases sign <;> cases h <;> constructor
    | _ => cases h

theorem joiner_iff {k : TokenKind} {op : Connective} :
    Joiner k op ↔ k = .keyword op.keyword := by
  constructor
  · intro h
    cases h <;> rfl
  · rintro rfl
    cases op <;> constructor

theorem Sign.ne_endOfInput {k : TokenKind} {op mirrored : Comparison} (h : Sign k op mirrored) :
    k ≠ .endOfInput := by
  cases h <;> simp

/-! ## Literals -/

theorem currentKind_bind {β : Type} (f : TokenKind → Parser β) (c : Cursor) :
    (currentKind >>= f) c = f c.current.kind c := rfl

/-- The sign of a literal and the token behind it. -/
def signed (negative : Bool) (k : TokenKind) : List TokenKind :=
  if negative then [.symbol .minus, k] else [k]

theorem literalHere_eq_ok {negative : Bool} {start : Position} {c c' : Cursor} {value : Literal} :
    literalHere negative start c = .ok value c' ↔
      c' = c ∧ ValuePhrase (signed negative c.current.kind) value := by
  constructor
  · intro h
    obtain ⟨k, _, hk, hread⟩ := bind_eq_ok.1 h
    obtain ⟨rfl, rfl⟩ := EStateM.Result.ok.inj hk
    -- only numbers have a sign, and only strings and truth values need none
    generalize c.current.kind = k at hread
    cases k with
    | number digits =>
      simp only [] at hread
      generalize hparsed : Decimal.parse? _ = parsed at hread
      cases parsed with
      | none => cases hread
      | some d =>
        cases hread
        cases negative with
        | false => exact ⟨rfl, .number hparsed⟩
        | true => exact ⟨rfl, .negative hparsed⟩
    | string content =>
      cases negative <;> cases hread
      exact ⟨rfl, .text content⟩
    | keyword word =>
      cases word with
      | true =>
        cases negative <;> cases hread
        exact ⟨rfl, .yes⟩
      | false =>
        cases negative <;> cases hread
        exact ⟨rfl, .no⟩
      | _ => cases negative <;> cases hread
    | _ => cases negative <;> cases hread
  · rintro ⟨rfl, h⟩
    refine bind_eq_ok.2 ⟨_, c', rfl, ?_⟩
    generalize c'.current.kind = k at h
    cases negative with
    | false =>
      cases h with
      | number h =>
        simp only [Bool.false_eq_true, if_false, h]
        rfl
      | _ => rfl
    | true =>
      cases h with
      | negative h =>
        simp only [if_true, h]
        rfl

theorem ValuePhrase.exists_signed {ks : List TokenKind} {value : Literal}
    (h : ValuePhrase ks value) :
    ∃ negative k, ks = signed negative k ∧ k ≠ .symbol .minus := by
  cases h with
  | negative h => exact ⟨true, _, rfl, by simp⟩
  | _ => exact ⟨false, _, rfl, by simp⟩

/-- The part of a literal behind its sign. -/
theorem unsigned_eq_ok {negative : Bool} {start : Position} {c c' : Cursor} {value : Literal} :
    (do let value ← literalHere negative start
        advance
        pure value : Parser Literal) c = .ok value c' ↔
      ∃ k, ValuePhrase (signed negative k) value ∧ c.Passes k c' := by
  have hne : ∀ {k}, ValuePhrase (signed negative k) value → k ≠ .endOfInput := by
    rintro _ h rfl
    cases negative <;> cases h
  constructor
  · intro h
    obtain ⟨_, c₁, hhere, h⟩ := bind_eq_ok.1 h
    obtain ⟨_, c₂, hadvance, hpure⟩ := bind_eq_ok.1 h
    cases hpure
    obtain ⟨rfl, hphrase⟩ := literalHere_eq_ok.1 hhere
    exact ⟨_, hphrase, (advance_eq_ok rfl (hne hphrase)).1 hadvance⟩
  · rintro ⟨k, hphrase, hpasses⟩
    rw [← hpasses.kind_eq] at hphrase
    refine bind_eq_ok.2 ⟨value, c, literalHere_eq_ok.2 ⟨rfl, hphrase⟩, ?_⟩
    exact bind_eq_ok.2 ⟨(), c', hpasses.advance_eq, rfl⟩

theorem literal_eq_ok {c c' : Cursor} {value : Literal} :
    literal c = .ok value c' ↔ ∃ ks, ValuePhrase ks value ∧ c.Past ks c' := by
  change (eat (.symbol .minus) >>= _) c = _ ↔ _
  rw [eat_bind_eq_ok (by simp)]
  constructor
  · rintro (⟨c₁, hminus, h⟩ | ⟨-, h⟩)
    · obtain ⟨k, hphrase, hpasses⟩ := unsigned_eq_ok.1 h
      exact ⟨_, hphrase, c₁, hminus, Cursor.past_singleton.2 hpasses⟩
    · obtain ⟨k, hphrase, hpasses⟩ := unsigned_eq_ok.1 h
      exact ⟨_, hphrase, Cursor.past_singleton.2 hpasses⟩
  · rintro ⟨ks, hphrase, hpast⟩
    obtain ⟨negative, k, rfl, hk⟩ := hphrase.exists_signed
    cases negative with
    | true =>
      obtain ⟨c₁, hminus, hpast⟩ := hpast
      exact .inl ⟨c₁, hminus, unsigned_eq_ok.2 ⟨k, hphrase, Cursor.past_singleton.1 hpast⟩⟩
    | false =>
      have hpasses := Cursor.past_singleton.1 hpast
      exact .inr ⟨hpasses.kind_eq ▸ hk, unsigned_eq_ok.2 ⟨k, hphrase, hpasses⟩⟩

/-! ## Columns -/

/-- A name is a whole column unless a point follows it. -/
theorem columnRef_eq_ok {c c' : Cursor} (hends : EndsOnce c.rest) {written : ColumnRef} :
    columnRef c = .ok written c' ↔ c.Past written.kinds c' ∧
      (written.qualifier = none → c'.current.kind ≠ .symbol .dot) := by
  rw [columnRef, bind_eq_ok]
  constructor
  · rintro ⟨first, c₁, hfirst, h⟩
    have hfirst := (identifier_eq_ok hends).1 hfirst
    rcases (eat_bind_eq_ok (by simp)).1 h with ⟨c₂, hdot, h⟩ | ⟨hno, h⟩
    · obtain ⟨name, c₃, hname, hpure⟩ := bind_eq_ok.1 h
      cases hpure
      have hname := (identifier_eq_ok (hdot.ends (hfirst.ends hends))).1 hname
      exact ⟨⟨c₁, hfirst, c₂, hdot, Cursor.past_singleton.2 hname⟩, by simp⟩
    · cases h
      exact ⟨Cursor.past_singleton.2 hfirst, fun _ => hno⟩
  · obtain ⟨qualifier, name⟩ := written
    rintro ⟨hpast, hdot⟩
    cases qualifier with
    | none =>
      have hname := Cursor.past_singleton.1 hpast
      refine ⟨name, c', (identifier_eq_ok hends).2 hname, ?_⟩
      exact (eat_bind_eq_ok (by simp)).2 (.inr ⟨hdot rfl, rfl⟩)
    | some q =>
      obtain ⟨c₁, hfirst, c₂, hpoint, hpast⟩ := hpast
      have hname := Cursor.past_singleton.1 hpast
      refine ⟨q, c₁, (identifier_eq_ok hends).2 hfirst, ?_⟩
      refine (eat_bind_eq_ok (by simp)).2 (.inl ⟨c₂, hpoint, ?_⟩)
      exact bind_eq_ok.2 ⟨name, c',
        (identifier_eq_ok (hpoint.ends (hfirst.ends hends))).2 hname, rfl⟩

theorem ColumnPhrase.begins {scope : Scope} {ks : List TokenKind} {column : ColumnRef}
    (h : ColumnPhrase scope ks column) {c c' : Cursor} (hpast : c.Past ks c') :
    ∃ name, c.current.kind = .identifier name := by
  obtain ⟨⟨_ | q, name⟩, -⟩ := h
  · exact ⟨name, hpast.kind_eq⟩
  · exact ⟨q, hpast.kind_eq⟩

theorem inScope_eq_ok {α : Type} {position : Position} {r : Except ScopeFault α} {c c' : Cursor}
    {a : α} : inScope position r c = .ok a c' ↔ r = .ok a ∧ c' = c := by
  cases r with
  | ok b =>
    constructor
    · intro h
      cases h
      exact ⟨rfl, rfl⟩
    · rintro ⟨h, rfl⟩
      cases h
      rfl
  | error fault => exact iff_of_false nofun nofun

theorem boundColumn_eq_ok {scope : Scope} {c c' : Cursor} (hends : EndsOnce c.rest)
    {column : ColumnRef} :
    boundColumn scope c = .ok column c' ↔ ∃ ks, ColumnPhrase scope ks column ∧ c.Past ks c' ∧
      (ks.length = 1 → c'.current.kind ≠ .symbol .dot) := by
  change (columnRef >>= _) c = _ ↔ _
  rw [bind_eq_ok]
  -- a point can go on only with a column of one token
  have hlength : ∀ written : ColumnRef, written.kinds.length = 1 ↔ written.qualifier = none := by
    rintro ⟨_ | q, name⟩ <;> simp [ColumnRef.kinds]
  constructor
  · rintro ⟨written, c₁, hwritten, h⟩
    obtain ⟨⟨bound, owner⟩, c₂, hbind, hpure⟩ := bind_eq_ok.1 h
    cases hpure
    obtain ⟨hresult, rfl⟩ := inScope_eq_ok.1 hbind
    obtain ⟨hpast, hdot⟩ := (columnRef_eq_ok hends).1 hwritten
    exact ⟨_, .bound written hresult, hpast, fun h => hdot ((hlength written).1 h)⟩
  · rintro ⟨ks, ⟨written, hbind⟩, hpast, hdot⟩
    refine ⟨_, c', (columnRef_eq_ok hends).2 ⟨hpast, fun h => hdot ((hlength _).2 h)⟩, ?_⟩
    exact bind_eq_ok.2 ⟨_, c', inScope_eq_ok.2 ⟨hbind, rfl⟩, rfl⟩

/-! ## Tests -/

theorem ValuePhrase.begins {ks : List TokenKind} {value : Literal} (h : ValuePhrase ks value)
    {c c' : Cursor} (hpast : c.Past ks c') : beginsLiteral c.current.kind = true := by
  cases h <;> rw [hpast.kind_eq] <;> rfl

/-- The word of a test is no operator and stands neither for `IS` nor for `NOT`. -/
theorem WordPhrase.begins {ks : List TokenKind} {test : Test} (h : WordPhrase ks test)
    {c c' : Cursor} (hpast : c.Past ks c') :
    comparisonOf? c.current.kind = none ∧ c.current.kind ≠ .keyword .is ∧
      c.current.kind ≠ .keyword .not := by
  cases h <;> rw [hpast.kind_eq] <;> exact ⟨rfl, by simp, by simp⟩

/-- No point stands between a column and what is said of it. -/
theorem TestPhrase.begins {column : ColumnRef} {ks : List TokenKind} {e : Condition}
    (h : TestPhrase column ks e) {c c' : Cursor} (hpast : c.Past ks c') :
    c.current.kind ≠ .symbol .dot := by
  cases h with
  | compare hsign hvalue =>
    rw [hpast.kind_eq]
    cases hsign <;> simp
  | word hword => cases hword <;> simp [hpast.kind_eq]
  | _ => simp [hpast.kind_eq]

section Tests

variable {c c' : Cursor} {test : Test}

/-- Behind the operator, `NULL` and names are refused before a literal is looked for. -/
theorem comparison_eq_ok {k : TokenKind} {op mirrored : Comparison} (hat : c.current.kind = k)
    (hsign : Sign k op mirrored) :
    comparison op c = .ok test c' ↔
      ∃ p value, ValuePhrase p value ∧ test = .compare op value ∧ c.Past (k :: p) c' := by
  constructor
  · intro h
    obtain ⟨_, c₁, hadvance, h⟩ := bind_eq_ok.1 h
    obtain ⟨k', _, hk', h⟩ := bind_eq_ok.1 h
    obtain ⟨-, rfl⟩ := EStateM.Result.ok.inj hk'
    have hliteral : (literal >>= fun value => pure (Test.compare op value)) c₁ = .ok test c' := by
      cases k' with
      | identifier name => cases h
      | keyword word =>
        cases word with
        | null => cases h
        | _ => exact h
      | _ => exact h
    obtain ⟨value, c₂, hvalue, hpure⟩ := bind_eq_ok.1 hliteral
    cases hpure
    obtain ⟨p, hphrase, hpast⟩ := literal_eq_ok.1 hvalue
    exact ⟨p, value, hphrase, rfl, c₁, (advance_eq_ok hat hsign.ne_endOfInput).1 hadvance,
      hpast⟩
  · rintro ⟨p, value, hphrase, rfl, c₁, hpasses, hpast⟩
    have hbegins := hphrase.begins hpast
    have hliteral : (literal >>= fun value => pure (Test.compare op value)) c₁ =
        .ok (.compare op value) c' :=
      bind_eq_ok.2 ⟨value, c', literal_eq_ok.2 ⟨p, hphrase, hpast⟩, rfl⟩
    refine bind_eq_ok.2 ⟨(), c₁, hpasses.advance_eq, bind_eq_ok.2 ⟨_, c₁, rfl, ?_⟩⟩
    generalize c₁.current.kind = k' at hbegins
    cases k' with
    | identifier name => cases hbegins
    | keyword word =>
      cases word with
      | null => cases hbegins
      | _ => exact hliteral
    | _ => exact hliteral

theorem nullTest_eq_ok (hat : c.current.kind = .keyword .is) :
    nullTest c = .ok test c' ↔
      test = .null true ∧ c.Past [.keyword .is, .keyword .null] c' ∨
        test = .null false ∧ c.Past [.keyword .is, .keyword .not, .keyword .null] c' := by
  rw [nullTest, bind_eq_ok]
  constructor
  · rintro ⟨_, c₁, hadvance, h⟩
    have his := (advance_eq_ok hat (by simp)).1 hadvance
    rcases (eat_bind_eq_ok (by simp)).1 h with ⟨c₂, hnot, h⟩ | ⟨-, h⟩
    · obtain ⟨_, c₃, hnull, hpure⟩ := bind_eq_ok.1 h
      cases hpure
      exact .inr ⟨rfl, c₁, his, c₂, hnot,
        Cursor.past_singleton.2 ((expect_eq_ok (by simp)).1 hnull)⟩
    · obtain ⟨_, c₃, hnull, hpure⟩ := bind_eq_ok.1 h
      cases hpure
      exact .inl ⟨rfl, c₁, his, Cursor.past_singleton.2 ((expect_eq_ok (by simp)).1 hnull)⟩
  · rintro (⟨rfl, c₁, his, hpast⟩ | ⟨rfl, c₁, his, c₂, hnot, hpast⟩)
    · have hnull := Cursor.past_singleton.1 hpast
      refine ⟨(), c₁, his.advance_eq, (eat_bind_eq_ok (by simp)).2 (.inr ⟨?_, ?_⟩)⟩
      · simp [hnull.kind_eq]
      · exact bind_eq_ok.2 ⟨(), c', (expect_eq_ok (by simp)).2 hnull, rfl⟩
    · have hnull := Cursor.past_singleton.1 hpast
      refine ⟨(), c₁, his.advance_eq, (eat_bind_eq_ok (by simp)).2 (.inl ⟨c₂, hnot, ?_⟩)⟩
      exact bind_eq_ok.2 ⟨(), c', (expect_eq_ok (by simp)).2 hnull, rfl⟩

theorem likeTest_eq_ok (hends : EndsOnce c.rest) (hat : c.current.kind = .keyword .like) :
    likeTest c = .ok test c' ↔
      ∃ pattern, test = .like pattern ∧ c.Past [.keyword .like, .string pattern] c' := by
  rw [likeTest, bind_eq_ok]
  constructor
  · rintro ⟨_, c₁, hadvance, h⟩
    have hlike := (advance_eq_ok hat (by simp)).1 hadvance
    obtain ⟨k, _, hk, h⟩ := bind_eq_ok.1 h
    obtain ⟨hkind, rfl⟩ := EStateM.Result.ok.inj hk
    cases k with
    | string pattern =>
      obtain ⟨_, c₂, hconsume, hpure⟩ := bind_eq_ok.1 h
      cases hpure
      have hstring := (consume_eq_ok (hlike.ends hends) hkind (by simp)).1 hconsume
      exact ⟨pattern, rfl, c₁, hlike, Cursor.past_singleton.2 hstring⟩
    | _ => cases h
  · rintro ⟨pattern, rfl, c₁, hlike, hpast⟩
    have hstring := Cursor.past_singleton.1 hpast
    refine ⟨(), c₁, hlike.advance_eq, bind_eq_ok.2 ⟨_, c₁, rfl, ?_⟩⟩
    rw [hstring.kind_eq]
    exact bind_eq_ok.2 ⟨(), c',
      (consume_eq_ok (hlike.ends hends) hstring.kind_eq (by simp)).2 hstring, rfl⟩

/-- A list of literals or a condition in parentheses, unless it is a query. -/
theorem noSubquery_eq_ok {β : Type} {p : Parser β} {b : β} :
    (do if ← atKeyword .select then failHere .subquery else p : Parser β) c = .ok b c' ↔
      c.current.kind ≠ .keyword .select ∧ p c = .ok b c' := by
  change (if (c.current.kind == .keyword .select) = true then failHere .subquery else p) c = _ ↔ _
  by_cases hat : c.current.kind = .keyword .select
  · rw [if_pos (beq_iff_eq.2 hat)]
    exact iff_of_false nofun fun h => h.1 hat
  · rw [if_neg (by simpa using hat)]
    exact (and_iff_right hat).symm

theorem amongTest_eq_ok (hends : EndsOnce c.rest) (hat : c.current.kind = .keyword .in) :
    amongTest c = .ok test c' ↔
      ∃ p values, Separated ValuePhrase p values ∧ test = .among values ∧
        c.Past (.keyword .in :: .symbol .openParen :: (p ++ [.symbol .closeParen])) c' := by
  rw [amongTest, bind_eq_ok]
  constructor
  · rintro ⟨_, c₁, hadvance, h⟩
    have hin := (advance_eq_ok hat (by simp)).1 hadvance
    obtain ⟨_, c₂, hopen, h⟩ := bind_eq_ok.1 h
    have hopen := (expect_eq_ok (by simp)).1 hopen
    obtain ⟨-, h⟩ := noSubquery_eq_ok.1 h
    obtain ⟨values, c₃, hvalues, h⟩ := bind_eq_ok.1 h
    obtain ⟨_, c₄, hclose, hpure⟩ := bind_eq_ok.1 h
    cases hpure
    obtain ⟨-, p, hphrase, hpast⟩ :=
      (commaList_eq_ok (fun _ => literal_eq_ok) (hopen.ends (hin.ends hends))).1 hvalues
    have hclose := Cursor.past_singleton.2 ((expect_eq_ok (by simp)).1 hclose)
    exact ⟨p, values, hphrase, rfl, c₁, hin, c₂, hopen, hpast.trans hclose⟩
  · rintro ⟨p, values, hphrase, rfl, c₁, hin, c₂, hopen, hpast⟩
    obtain ⟨c₃, hpast, hclose⟩ := Cursor.past_append.1 hpast
    have hclose := Cursor.past_singleton.1 hclose
    -- the list begins with a literal, so it is not taken for a query
    have hselect : c₂.current.kind ≠ .keyword .select := by
      have hbegins : beginsLiteral c₂.current.kind = true := by
        cases hphrase with
        | last h => exact h.begins hpast
        | more h _ =>
          obtain ⟨_, hfirst, -⟩ := Cursor.past_append.1 hpast
          exact h.begins hfirst
      intro hat
      rw [hat] at hbegins
      cases hbegins
    have hvalues := (commaList_eq_ok (fun _ => literal_eq_ok) (hopen.ends (hin.ends hends))).2
      ⟨by simp [hclose.kind_eq], p, hphrase, hpast⟩
    refine ⟨(), c₁, hin.advance_eq, bind_eq_ok.2 ⟨(), c₂, (expect_eq_ok (by simp)).2 hopen, ?_⟩⟩
    refine noSubquery_eq_ok.2 ⟨hselect, bind_eq_ok.2 ⟨values, c₃, hvalues, ?_⟩⟩
    exact bind_eq_ok.2 ⟨(), c', (expect_eq_ok (by simp)).2 hclose, rfl⟩

theorem betweenTest_eq_ok (hat : c.current.kind = .keyword .between) :
    betweenTest c = .ok test c' ↔
      ∃ p low q high, ValuePhrase p low ∧ ValuePhrase q high ∧ test = .between low high ∧
        c.Past (.keyword .between :: (p ++ .keyword .and :: q)) c' := by
  rw [betweenTest, bind_eq_ok]
  constructor
  · rintro ⟨_, c₁, hadvance, h⟩
    obtain ⟨low, c₂, hlow, h⟩ := bind_eq_ok.1 h
    obtain ⟨_, c₃, hand, h⟩ := bind_eq_ok.1 h
    obtain ⟨high, c₄, hhigh, hpure⟩ := bind_eq_ok.1 h
    cases hpure
    obtain ⟨p, hp, hpast⟩ := literal_eq_ok.1 hlow
    obtain ⟨q, hq, hpast'⟩ := literal_eq_ok.1 hhigh
    have hbetween := (advance_eq_ok hat (by simp)).1 hadvance
    have hand := (expect_eq_ok (by simp)).1 hand
    exact ⟨p, low, q, high, hp, hq, rfl, c₁, hbetween, hpast.trans ⟨c₃, hand, hpast'⟩⟩
  · rintro ⟨p, low, q, high, hp, hq, rfl, c₁, hbetween, hpast⟩
    obtain ⟨c₂, hpast, c₃, hand, hpast'⟩ := Cursor.past_append.1 hpast
    refine ⟨(), c₁, hbetween.advance_eq, ?_⟩
    refine bind_eq_ok.2 ⟨low, c₂, literal_eq_ok.2 ⟨p, hp, hpast⟩, ?_⟩
    refine bind_eq_ok.2 ⟨(), c₃, (expect_eq_ok (by simp)).2 hand, ?_⟩
    exact bind_eq_ok.2 ⟨high, c', literal_eq_ok.2 ⟨q, hq, hpast'⟩, rfl⟩

/-- The word in front of a test decides which one it is. -/
theorem wordTest_eq_ok (hends : EndsOnce c.rest) {otherwise : Expectation} :
    wordTest otherwise c = .ok test c' ↔ ∃ ks, WordPhrase ks test ∧ c.Past ks c' := by
  rw [wordTest, currentKind_bind]
  constructor
  · intro h
    generalize hat : c.current.kind = k at h
    cases k with
    | keyword word =>
      cases word with
      | like =>
        obtain ⟨pattern, rfl, hpast⟩ := (likeTest_eq_ok hends hat).1 h
        exact ⟨_, .like pattern, hpast⟩
      | «in» =>
        obtain ⟨p, values, hphrase, rfl, hpast⟩ := (amongTest_eq_ok hends hat).1 h
        exact ⟨_, .among hphrase, hpast⟩
      | between =>
        obtain ⟨p, low, q, high, hlow, hhigh, rfl, hpast⟩ := (betweenTest_eq_ok hat).1 h
        exact ⟨_, .between hlow hhigh, hpast⟩
      | _ => cases h
    | _ => cases h
  · rintro ⟨ks, hphrase, hpast⟩
    cases hphrase with
    | like pattern =>
      have hat := hpast.kind_eq
      rw [hat]
      exact (likeTest_eq_ok hends hat).2 ⟨pattern, rfl, hpast⟩
    | among h =>
      have hat := hpast.kind_eq
      rw [hat]
      exact (amongTest_eq_ok hends hat).2 ⟨_, _, h, rfl, hpast⟩
    | between hlow hhigh =>
      have hat := hpast.kind_eq
      rw [hat]
      exact (betweenTest_eq_ok hat).2 ⟨_, _, _, _, hlow, hhigh, rfl, hpast⟩

theorem columnTest_of_comparison {op : Comparison} (column : ColumnRef)
    (hop : comparisonOf? c.current.kind = some op) :
    columnTest column c = (comparison op >>= fun test => pure (.test column test)) c := by
  rw [columnTest, currentKind_bind]
  generalize c.current.kind = k at hop
  cases k with
  | symbol sign => cases sign <;> cases hop <;> rfl
  | _ => cases hop

theorem columnTest_of_word (column : ColumnRef) (hop : comparisonOf? c.current.kind = none)
    (his : c.current.kind ≠ .keyword .is) (hnot : c.current.kind ≠ .keyword .not) :
    columnTest column c =
      (wordTest (.operatorAfterColumn column) >>= fun test => pure (.test column test)) c := by
  rw [columnTest, currentKind_bind]
  generalize c.current.kind = k at hop his hnot
  cases k with
  | keyword word =>
    cases word with
    | is => exact absurd rfl his
    | not => exact absurd rfl hnot
    | _ => rfl
  | symbol sign => cases sign <;> cases hop <;> rfl
  | _ => rfl

theorem columnTest_eq_ok (hends : EndsOnce c.rest) {column : ColumnRef} {e : Condition} :
    columnTest column c = .ok e c' ↔ ∃ ks, TestPhrase column ks e ∧ c.Past ks c' := by
  constructor
  · intro h
    -- the token behind the column decides: `IS`, `NOT`, an operator or the word of a test
    by_cases his : c.current.kind = .keyword .is
    · rw [columnTest, currentKind_bind, his] at h
      obtain ⟨test, c₁, htest, hpure⟩ := bind_eq_ok.1 h
      cases hpure
      rcases (nullTest_eq_ok his).1 htest with ⟨rfl, hpast⟩ | ⟨rfl, hpast⟩
      · exact ⟨_, .null, hpast⟩
      · exact ⟨_, .notNull, hpast⟩
    by_cases hnot : c.current.kind = .keyword .not
    · rw [columnTest, currentKind_bind, hnot] at h
      obtain ⟨_, c₁, hadvance, h⟩ := bind_eq_ok.1 h
      obtain ⟨test, c₂, htest, hpure⟩ := bind_eq_ok.1 h
      cases hpure
      have hpasses := (advance_eq_ok hnot (by simp)).1 hadvance
      obtain ⟨ks, hphrase, hpast⟩ := (wordTest_eq_ok (hpasses.ends hends)).1 htest
      exact ⟨_, .notWord hphrase, c₁, hpasses, hpast⟩
    cases hop : comparisonOf? c.current.kind with
    | some op =>
      rw [columnTest_of_comparison column hop] at h
      obtain ⟨test, c₁, htest, hpure⟩ := bind_eq_ok.1 h
      cases hpure
      have hsign := sign_iff.2 ⟨hop, rfl⟩
      obtain ⟨p, value, hphrase, rfl, hpast⟩ := (comparison_eq_ok rfl hsign).1 htest
      exact ⟨_, .compare hsign hphrase, hpast⟩
    | none =>
      rw [columnTest_of_word column hop his hnot] at h
      obtain ⟨test, c₁, htest, hpure⟩ := bind_eq_ok.1 h
      cases hpure
      obtain ⟨ks, hphrase, hpast⟩ := (wordTest_eq_ok hends).1 htest
      exact ⟨_, .word hphrase, hpast⟩
  · rintro ⟨ks, hphrase, hpast⟩
    cases hphrase with
    | compare hsign hvalue =>
      have hat := hpast.kind_eq
      have hop := (sign_iff.1 hsign).1
      rw [columnTest_of_comparison column (by rw [hat, hop])]
      exact bind_eq_ok.2 ⟨_, c', (comparison_eq_ok hat hsign).2 ⟨_, _, hvalue, rfl, hpast⟩, rfl⟩
    | null =>
      have hat := hpast.kind_eq
      rw [columnTest, currentKind_bind, hat]
      exact bind_eq_ok.2 ⟨_, c', (nullTest_eq_ok hat).2 (.inl ⟨rfl, hpast⟩), rfl⟩
    | notNull =>
      have hat := hpast.kind_eq
      rw [columnTest, currentKind_bind, hat]
      exact bind_eq_ok.2 ⟨_, c', (nullTest_eq_ok hat).2 (.inr ⟨rfl, hpast⟩), rfl⟩
    | word hword =>
      obtain ⟨hop, his, hnot⟩ := hword.begins hpast
      rw [columnTest_of_word column hop his hnot]
      exact bind_eq_ok.2 ⟨_, c', (wordTest_eq_ok hends).2 ⟨ks, hword, hpast⟩, rfl⟩
    | notWord hword =>
      obtain ⟨c₁, hnot, hpast⟩ := hpast
      rw [columnTest, currentKind_bind, hnot.kind_eq]
      refine bind_eq_ok.2 ⟨(), c₁, hnot.advance_eq, ?_⟩
      exact bind_eq_ok.2 ⟨_, c', (wordTest_eq_ok (hnot.ends hends)).2 ⟨_, hword, hpast⟩, rfl⟩

end Tests

end Sql

end FetchQuery
