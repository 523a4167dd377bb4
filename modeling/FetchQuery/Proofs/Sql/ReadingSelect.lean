import FetchQuery.Sql.Select
import FetchQuery.Proofs.SelectList
import FetchQuery.Proofs.Sql.ReadingConditions

/-!
# Reading the select list back

The lexemes of a select item are read as the item in the spelling it is written with
(`reads_selectItem`). Binding then undoes the spelling: what belongs to an entity of the scope
is bound to it again (`bindValue_writtenValue_root`, `bindValue_writtenValue_joined`).
-/

set_option autoImplicit false

namespace FetchQuery

/-- Whether a token is an identifier. -/
def TokenKind.isIdentifier : TokenKind → Bool
  | .identifier _ => true
  | _ => false

namespace Sql

variable {good : Prop}

/-- What follows begins with one of the given kinds. -/
def Opens (kinds : List TokenKind) (ls : List Lexeme) : Prop :=
  ∃ k ∈ kinds, nextKind ls = some k

theorem Opens.ne {kinds : List TokenKind} {ls : List Lexeme} (h : Opens kinds ls)
    {k : TokenKind} (hk : k ∉ kinds) : nextKind ls ≠ some k := by
  obtain ⟨k', hmem, hnext⟩ := h
  rw [hnext]
  rintro ⟨⟩
  exact hk hmem

theorem opens_cons {kinds : List TokenKind} {l : Lexeme} {ls : List Lexeme}
    (h : l.kind ∈ kinds) : Opens kinds (l :: ls) :=
  ⟨l.kind, h, rfl⟩

theorem Opens.mono {kinds kinds' : List TokenKind} {ls : List Lexeme} (h : Opens kinds ls)
    (hsub : kinds ⊆ kinds') : Opens kinds' ls := by
  obtain ⟨k, hmem, hnext⟩ := h
  exact ⟨k, hsub hmem, hnext⟩

/-! ## Labels -/

/-- What ends a phrase that a label may follow. -/
def NoLabel (ls : List Lexeme) : Prop :=
  nextKind ls ≠ some (.keyword .as) ∧ ∀ name, nextKind ls ≠ some (.identifier name)

theorem Opens.noLabel {kinds : List TokenKind} {ls : List Lexeme} (h : Opens kinds ls)
    (has : .keyword .as ∉ kinds)
    (hname : ∀ k ∈ kinds, k.isIdentifier = false) : NoLabel ls := by
  refine ⟨h.ne has, fun name hnext => ?_⟩
  obtain ⟨k, hmem, hk⟩ := h
  rw [hk] at hnext
  obtain rfl := Option.some.inj hnext
  exact absurd (hname _ hmem) (by simp [TokenKind.isIdentifier])

theorem reads_atIdentifier_false {ls : List Lexeme}
    (h : ∀ name, nextKind ls ≠ some (.identifier name)) :
    Reads good atIdentifier [] ls (· = false) := by
  intro c hr hc
  refine reads_currentKind_bind (k := c.current.kind) hc.nextKind_eq ?_ c hr hc
  split
  · next name hk => exact absurd (hc.nextKind_eq.trans (by rw [hk])) (h name)
  · exact reads_pure rfl

theorem reads_optionalLabel (label : Option String) {rest : List Lexeme} (hrest : NoLabel rest) :
    Reads good optionalLabel (labelLexemes label) rest (· = label) := by
  cases label with
  | some label =>
    refine Reads.bind_cons (reads_eatKeyword .as) ?_
    rintro _ rfl
    refine (reads_identifier label).bind_nil ?_
    rintro _ rfl
    exact reads_pure rfl
  | none =>
    refine Reads.bind_look (reads_eat_false hrest.1) ?_
    rintro _ rfl
    refine Reads.bind_look (reads_atIdentifier_false hrest.2) ?_
    rintro _ rfl
    exact reads_pure rfl

/-! ## Select values -/

/-- The argument of an aggregate function as it is written. -/
def writtenArgument (root : Option String) : AggregateArgument → AggregateArgument
  | .column c => .column (written root c)
  | .star => .star

/-- A select value as it is written. -/
def writtenValue (root : Option String) : SelectValue → SelectValue
  | .column c => .column (written root c)
  | .wildcard owner => .wildcard (owner.or root)
  | .aggregate call => .aggregate { call with argument := writtenArgument root call.argument }

/-- The kinds that may follow a select value. -/
def valueEnds : List TokenKind :=
  [.keyword .as, .symbol .comma, .keyword .from]

/-- The kinds that may follow an item of the select list. -/
def itemEnds : List TokenKind :=
  [.symbol .comma, .keyword .from]

theorem reads_failHere {α : Type} (hgood : ¬good) (fault : SyntaxFault) {ls rest : List Lexeme}
    {Q : α → Prop} : Reads good (failHere fault) ls rest Q :=
  reads_of_error hgood fun c => ⟨⟨fault, c.current.position⟩, c, rfl⟩

/-- The argument of an aggregate function is read as it is written; a star is refused except in
a plain `COUNT`. -/
theorem reads_aggregateArgument (root : Option String) {call : AggregateCall}
    (hstar : good → call.argument = .star → call.function = .count ∧ call.distinct = false)
    {rest : List Lexeme} (hrest : nextKind rest ≠ some (.symbol .dot)) :
    Reads good (aggregateArgument call.function call.distinct)
      (argumentLexemes root call.argument) rest (· = writtenArgument root call.argument) := by
  cases harg : call.argument with
  | star =>
    refine reads_isAt_bind (k := .symbol .star) rfl ?_
    rw [beq_self_eq_true, if_pos rfl]
    -- a refused star is a reason to fail, since it breaks the rule that `good` stands for
    by_cases hrefused : call.function ≠ .count ∨ call.distinct = true
    · refine reads_if_pos hrefused (reads_failHere (fun hgood => ?_) _)
      obtain ⟨hcount, hdistinct⟩ := hstar hgood harg
      rw [hdistinct] at hrefused
      rcases hrefused with hne | hfalse
      · exact hne hcount
      · exact Bool.noConfusion hfalse
    · refine reads_if_neg hrefused ?_
      exact (reads_advance _ rest).bind_nil fun _ _ => reads_pure rfl
  | column c =>
    have hcolumn : Reads good (columnRef >>= fun c => pure (AggregateArgument.column c))
        (columnLexemes root c) rest (· = .column (written root c)) :=
      (reads_columnRef root c hrest).bind_nil (by rintro _ rfl; exact reads_pure rfl)
    obtain ⟨name, ls, hls⟩ := columnLexemes_cons root c
    refine reads_isAt_ne_bind ?_ hcolumn
    rw [argumentLexemes, hls, List.cons_append, nextKind_cons]
    simpa using Lexeme.kind_ofName_ne name (k := .symbol .star) (by simp) (by simp)

theorem nextKind_argument (root : Option String) (argument : AggregateArgument) (k : Keyword)
    (rest : List Lexeme) :
    nextKind (argumentLexemes root argument ++ rest) ≠ some (.keyword k) := by
  cases argument with
  | star => simp [argumentLexemes]
  | column c => exact nextKind_column c rest k

theorem reads_aggregateCall (root : Option String) {call : AggregateCall}
    (hstar : good → call.argument = .star → call.function = .count ∧ call.distinct = false)
    (rest : List Lexeme) :
    Reads good (aggregateCall call.function) (callLexemes root call) rest
      (· = { call with argument := writtenArgument root call.argument }) := by
  have hargument : Reads good (aggregateArgument call.function call.distinct)
      (argumentLexemes root call.argument) (Lexeme.ofSymbol .closeParen :: rest)
      (· = writtenArgument root call.argument) :=
    reads_aggregateArgument root hstar (by simp)
  rw [callLexemes, List.append_assoc]
  refine Reads.bind_cons (reads_advance _ _) fun _ _ => ?_
  refine (reads_eatKeyword_if call.distinct fun _ => ?_).bind ?_
  · have hnext := nextKind_argument root call.argument .distinct
      ([Lexeme.ofSymbol .closeParen] ++ rest)
    rwa [← List.append_assoc] at hnext
  · rintro _ rfl
    refine hargument.bind ?_
    rintro _ rfl
    exact (reads_expectSymbol .closeParen).bind_nil fun _ _ => reads_pure rfl

theorem ofName?_sql (f : AggregateFunction) : AggregateFunction.ofName? f.sql = some f := by
  cases f <;> decide

theorem reads_namedValue_column (root : Option String) (c : ColumnRef) (position : Position)
    {rest : List Lexeme} (hrest : Opens valueEnds rest) :
    Reads good (identifier .columnName >>= fun name => namedValue name position)
      (columnLexemes root c) rest (· = .column (written root c)) := by
  have hparen : nextKind rest ≠ some (.symbol .openParen) := hrest.ne (by decide)
  have hdot : nextKind rest ≠ some (.symbol .dot) := hrest.ne (by decide)
  rw [columnLexemes, written]
  cases c.qualifier.or root with
  | none =>
    refine (reads_identifier c.name).bind_nil ?_
    rintro _ rfl
    refine reads_isAt_ne_bind hparen ?_
    refine (reads_eat_false hdot).bind_nil ?_
    rintro _ rfl
    exact reads_pure rfl
  | some q =>
    refine Reads.bind_cons (reads_identifier q) ?_
    rintro _ rfl
    refine reads_isAt_ne_bind (by simp) ?_
    refine Reads.bind_cons (reads_eatSymbol .dot) ?_
    rintro _ rfl
    refine Reads.bind_look (reads_eat_false ?_) ?_
    · simpa using Lexeme.kind_ofName_ne c.name (k := .symbol .star) (by simp) (by simp)
    · rintro _ rfl
      refine (reads_identifier c.name).bind_nil ?_
      rintro _ rfl
      exact reads_pure rfl

/-- Select values are read as they are written. -/
theorem reads_selectValue (root : Option String) {value : SelectValue}
    (hstar : good → ∀ call, value = .aggregate call → call.argument = .star →
      call.function = .count ∧ call.distinct = false)
    (position : Position) {rest : List Lexeme} (hrest : Opens valueEnds rest) :
    Reads good (selectValue position) (valueLexemes root value) rest
      (· = writtenValue root value) := by
  -- a value that begins with a name is no plain star
  have hname : ∀ {name : String} {ls : List Lexeme} {Q : SelectValue → Prop},
      Reads good (identifier .columnName >>= fun name => namedValue name position)
        (Lexeme.ofName name :: ls) rest Q →
      Reads good (selectValue position) (Lexeme.ofName name :: ls) rest Q := by
    intro name ls Q h
    refine Reads.bind_look (reads_eat_false ?_) ?_
    · simpa using Lexeme.kind_ofName_ne name (k := .symbol .star) (by simp) (by simp)
    · rintro _ rfl
      exact h
  cases value with
  | column c =>
    have hcolumn : Reads good
        (identifier .columnName >>= fun name => namedValue name position)
        (columnLexemes root c) rest (· = .column (written root c)) :=
      reads_namedValue_column root c position hrest
    obtain ⟨name, ls, hls⟩ := columnLexemes_cons root c
    rw [valueLexemes]
    rw [hls] at hcolumn ⊢
    exact hname hcolumn
  | wildcard owner =>
    rw [valueLexemes, writtenValue]
    cases owner.or root with
    | none =>
      refine (reads_eatSymbol .star).bind_nil ?_
      rintro _ rfl
      exact reads_pure rfl
    | some q =>
      refine hname (Reads.bind_cons (reads_identifier q) ?_)
      rintro _ rfl
      refine reads_isAt_ne_bind (by simp) ?_
      refine Reads.bind_cons (reads_eatSymbol .dot) ?_
      rintro _ rfl
      refine (reads_eatSymbol .star).bind_nil ?_
      rintro _ rfl
      exact reads_pure rfl
  | aggregate call =>
    refine hname (Reads.bind_cons (reads_identifier call.function.sql) ?_)
    rintro _ rfl
    refine reads_isAt_bind (k := .symbol .openParen) rfl ?_
    rw [beq_self_eq_true, if_pos rfl, ofName?_sql]
    refine (reads_aggregateCall root (fun hgood => hstar hgood call rfl) rest).bind_nil ?_
    rintro _ rfl
    exact reads_pure rfl

/-! ## Select items -/

/-- A select item as it is read: its value as written, its label kept. -/
def WrittenAs (root : Option String) (item : SelectItem) (pending : PendingItem) : Prop :=
  pending.item = ⟨writtenValue root item.value, item.label⟩

theorem reads_selectItem (root : Option String) {item : SelectItem}
    (hstar : good → ∀ call, item.value = .aggregate call → call.argument = .star →
      call.function = .count ∧ call.distinct = false)
    (hwildcard : ∀ owner, item.value = .wildcard owner → item.label = none)
    {rest : List Lexeme} (hrest : Opens itemEnds rest) :
    Reads good selectItem (itemLexemes root item) rest (WrittenAs root item) := by
  apply reads_currentPosition_bind
  intro position
  have hvalue : Opens valueEnds (labelLexemes item.label ++ rest) := by
    cases item.label with
    | none => exact hrest.mono (by decide)
    | some label => exact opens_cons (by decide)
  refine (reads_selectValue root hstar position hvalue).bind ?_
  rintro _ rfl
  have hlabel := hrest.noLabel (by decide) (by decide)
  refine (reads_optionalLabel item.label hlabel).bind_nil ?_
  rintro _ rfl
  split
  · -- a wildcard with a label is refused, and no such item is written
    next owner label hv hl =>
    cases hitem : item.value with
    | wildcard owner => rw [hwildcard owner hitem] at hl; simp at hl
    | column c => rw [hitem] at hv; simp [writtenValue] at hv
    | aggregate call => rw [hitem] at hv; simp [writtenValue] at hv
  · exact reads_pure rfl

/-- A value of the root is bound to the root from how it is written. -/
theorem bindValue_writtenValue_root (scope : Scope) {value : SelectValue}
    (h : value.OwnedBy none) :
    SelectList.bindValue scope (writtenValue scope.rootName value) = .ok (value, .root) := by
  have hbind : ∀ c : ColumnRef, c.qualifier = none →
      scope.bind (written scope.rootName c) = .ok (c, .root) := by
    rintro ⟨q, name⟩ rfl
    exact scope.bind_written_root name
  cases value with
  | column c => simp only [writtenValue, SelectList.bindValue, hbind c h]
  | wildcard owner =>
    obtain rfl : owner = none := h
    -- the root is named in a wildcard only beside joins
    by_cases hj : scope.joined.isEmpty = true
    · rw [Scope.rootName, if_pos hj]
      rfl
    · rw [Scope.rootName, if_neg hj]
      simp only [writtenValue, Option.or, SelectList.bindValue, Scope.resolve, Scope.find?_root]
      rfl
  | aggregate call =>
    cases harg : call.argument with
    | star =>
      simp only [writtenValue, harg, writtenArgument, SelectList.bindValue]
      rw [← harg]
    | column c =>
      have hc : c.qualifier = none := by simpa [SelectValue.OwnedBy, harg] using h
      simp only [writtenValue, harg, writtenArgument, SelectList.bindValue, hbind c hc]
      rw [← harg]

/-- A value of a joined entity is bound to that entity from how it is written. -/
theorem bindValue_writtenValue_joined {scope : Scope} (hd : scope.Distinct) {i : Nat}
    {q : String} (hi : scope.joined[i]? = some q) {value : SelectValue}
    (h : value.OwnedBy (some q)) (root : Option String) :
    SelectList.bindValue scope (writtenValue root value) = .ok (value, .join i) := by
  have hbind : ∀ c : ColumnRef, c.qualifier = some q →
      scope.bind (written root c) = .ok (c, .join i) := by
    rintro ⟨_, name⟩ rfl
    exact Scope.bind_written_joined hd hi name
  cases value with
  | column c => simp only [writtenValue, SelectList.bindValue, hbind c h]
  | wildcard owner =>
    obtain rfl : owner = some q := h
    simp only [writtenValue, Option.or, SelectList.bindValue, Scope.resolve,
      Scope.find?_joined hd hi, Scope.declared, hi]
  | aggregate call =>
    cases harg : call.argument with
    | star => simp [SelectValue.OwnedBy, harg] at h
    | column c =>
      have hc : c.qualifier = some q := by simpa [SelectValue.OwnedBy, harg] using h
      simp only [writtenValue, harg, writtenArgument, SelectList.bindValue, hbind c hc]
      rw [← harg]

end Sql

end FetchQuery
