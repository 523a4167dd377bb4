import FetchQuery.Proofs.Scope
import FetchQuery.Proofs.Sql.ReadingConditions

/-!
# What reading steps yield

`Yields p Q` says that every result of the step `p` satisfies `Q`, whatever tokens it is read
from, as long as no identifier token is empty. The scanner makes no empty identifiers
(`isNamed_scanFrom`), and no step puts one in front of the cursor, so the property is carried
along every sequence of steps (`Yields.bind`).

Conditions yield what every test in them yields (`yields_condition`): columns bound in the
scope, and lists with at least one value.
-/

set_option autoImplicit false

namespace FetchQuery

open Text

/-! ## Identifiers have characters -/

/-- A token that is no identifier, or one with characters. -/
def TokenKind.IsNamed (k : TokenKind) : Prop :=
  k ≠ .identifier ""

theorem Lexeme.isNamed_quotedName (first close : Char) (empty unclosed : ScanFault)
    (cs : List Char) : (quotedName first close empty unclosed cs).kind.IsNamed := by
  rw [quotedName]
  split
  · simp [TokenKind.IsNamed]
  · next content hne _ => simpa [TokenKind.IsNamed] using hne
  · simp [TokenKind.IsNamed]

theorem Lexeme.isNamed_word {c : Char} (hc : isWordStart c = true) (cs : List Char) :
    (word c cs).kind.IsNamed := by
  -- a word has at least the character it starts with
  have htake : (c :: cs).takeWhile isWordPart ≠ [] := by
    rw [List.takeWhile_cons_of_pos (isWordPart_of_isWordStart hc)]
    exact List.cons_ne_nil _ _
  unfold word
  simp only []
  split
  · simp [TokenKind.IsNamed]
  · simpa [TokenKind.IsNamed] using htake

theorem Lexeme.isNamed_symbol? {c : Char} {next : Option Char} {l : Lexeme}
    (h : symbol? c next = some l) : l.kind.IsNamed := by
  unfold symbol? at h
  split at h
  case h_2 | h_3 | h_4 =>
    split at h <;> (obtain rfl := Option.some.inj h; simp [TokenKind.IsNamed])
  case h_12 => simp at h
  all_goals obtain rfl := Option.some.inj h; simp [TokenKind.IsNamed]

theorem isNamed_lexeme (c : Char) (cs : List Char) : (lexeme c cs).kind.IsNamed := by
  -- only quoted names and words are identifiers, all other kinds of lexemes are not
  rw [lexeme]
  split
  · simp [Lexeme.lineComment, TokenKind.IsNamed]
  split
  · rw [Lexeme.blockComment]
    split <;> simp [TokenKind.IsNamed]
  split
  · rw [Lexeme.string]
    split <;> simp [TokenKind.IsNamed]
  split
  · exact Lexeme.isNamed_quotedName _ _ _ _ _
  split
  · exact Lexeme.isNamed_quotedName _ _ _ _ _
  split
  · next hsymbol => exact Lexeme.isNamed_symbol? hsymbol
  split
  · rw [Lexeme.number]
    simp only []
    split <;> simp [TokenKind.IsNamed]
  split
  · next hword => exact Lexeme.isNamed_word hword cs
  · simp [TokenKind.IsNamed]

theorem isNamed_scanFrom {skip : Nat} {p : Position} {cs : List Char} :
    ∀ t ∈ scanFrom skip p cs, t.kind.IsNamed := by
  induction cs generalizing skip p with
  | nil => cases skip <;> simp [scanFrom, TokenKind.IsNamed]
  | cons c cs ih =>
    cases skip with
    | succ skip => exact ih
    | zero =>
      rw [scanFrom]
      split
      · exact ih
      · intro t ht
        rcases List.mem_cons.1 ht with rfl | ht
        · exact isNamed_lexeme c cs
        · exact ih t ht

namespace Sql

/-- A cursor in front of which no identifier is empty. -/
def Cursor.IsNamed (c : Cursor) : Prop :=
  c.current.kind.IsNamed ∧ ∀ t ∈ c.ahead, t.kind.IsNamed

theorem Cursor.isNamed_moveOn {current : Token} {comments : List String} {tokens : List Token}
    {c : Cursor} (hcurrent : current.kind.IsNamed) (htokens : ∀ t ∈ tokens, t.kind.IsNamed)
    (h : moveOn current comments tokens = .ok () c) : c.IsNamed := by
  induction tokens generalizing comments with
  | nil =>
    rw [moveOn] at h
    obtain rfl := (EStateM.Result.ok.inj h).2
    exact ⟨hcurrent, by simp⟩
  | cons t tokens ih =>
    have hrest : ∀ t ∈ tokens, t.kind.IsNamed := fun t' ht' =>
      htokens t' (List.mem_cons_of_mem t ht')
    rw [moveOn] at h
    split at h
    · exact ih hrest h
    · simp at h
    · obtain rfl := (EStateM.Result.ok.inj h).2
      exact ⟨htokens t List.mem_cons_self, hrest⟩

theorem Cursor.isNamed_ofSource {source : String} {c : Cursor} (h : ofSource source = .ok c) :
    c.IsNamed := by
  rw [ofSource, ofTokens] at h
  split at h
  · next cursor hmove =>
    obtain rfl := Except.ok.inj h
    exact isNamed_moveOn (by simp [TokenKind.IsNamed]) isNamed_scanFrom hmove
  · simp at h

/-! ## Results of steps -/

/-- Every result of the step satisfies `Q`. -/
def Yields {α : Type} (p : Parser α) (Q : α → Prop) : Prop :=
  ∀ c a c', c.IsNamed → p c = .ok a c' → Q a ∧ c'.IsNamed

section Steps

variable {α β : Type} {p p' : Parser α} {f : α → Parser β} {Q Q' : α → Prop} {R : β → Prop}

theorem yields_pure {a : α} (h : Q a) : Yields (pure a) Q := by
  rintro c _ _ hc ⟨⟩
  exact ⟨h, hc⟩

theorem Yields.mono (h : Yields p Q) (hq : ∀ a, Q a → Q' a) : Yields p Q' := by
  intro c a c' hc hp
  obtain ⟨ha, hc'⟩ := h c a c' hc hp
  exact ⟨hq a ha, hc'⟩

theorem Yields.bind (h : Yields p Q) (hf : ∀ a, Q a → Yields (f a) R) : Yields (p >>= f) R := by
  intro c b c'' hc hpf
  change EStateM.bind p f c = _ at hpf
  rw [EStateM.bind] at hpf
  split at hpf
  · next a c' hp =>
    obtain ⟨ha, hc'⟩ := h c a c' hc hp
    exact hf a ha c' b c'' hc' hpf
  · simp at hpf

/-- A step of which only the second part matters. -/
theorem Yields.then (h : Yields p fun _ => True) (hf : ∀ a, Yields (f a) R) : Yields (p >>= f) R :=
  h.bind fun a _ => hf a

theorem yields_ite {P : Prop} [Decidable P] (h : P → Yields p Q) (h' : ¬P → Yields p' Q) :
    Yields (if P then p else p') Q := by
  split
  · next hP => exact h hP
  · next hP => exact h' hP

theorem yields_failAt (fault : SyntaxFault) (position : Position) :
    Yields (failAt fault position) Q := by
  rintro c a c' - ⟨⟩

theorem yields_failHere (fault : SyntaxFault) : Yields (failHere fault) Q := by
  rintro c a c' - ⟨⟩

theorem yields_unexpected (what : Expectation) : Yields (unexpected what) Q := by
  rintro c a c' - ⟨⟩

theorem yields_inScope (position : Position) (r : Except ScopeFault α) :
    Yields (inScope position r) fun a => r = .ok a := by
  cases r with
  | ok a => exact yields_pure rfl
  | error fault => exact yields_failAt _ _

end Steps

theorem yields_currentKind : Yields currentKind TokenKind.IsNamed := by
  rintro c _ _ hc ⟨⟩
  exact ⟨hc.1, hc⟩

theorem yields_currentPosition : Yields currentPosition fun _ => True := by
  rintro c _ _ hc ⟨⟩
  exact ⟨trivial, hc⟩

theorem yields_remaining : Yields remaining fun _ => True := by
  rintro c _ _ hc ⟨⟩
  exact ⟨trivial, hc⟩

theorem yields_isAt (kind : TokenKind) : Yields (isAt kind) fun _ => True := by
  rintro c _ _ hc ⟨⟩
  exact ⟨trivial, hc⟩

theorem yields_advance : Yields advance fun _ => True := fun _ _ _ hc h =>
  ⟨trivial, Cursor.isNamed_moveOn hc.1 hc.2 h⟩

theorem yields_consume : Yields consume fun _ => True := fun _ _ _ hc h =>
  -- the current token is left as the end of the input, which is no identifier
  ⟨trivial, Cursor.isNamed_moveOn (by simp [TokenKind.IsNamed]) hc.2 h⟩

theorem yields_eat (kind : TokenKind) : Yields (eat kind) fun _ => True :=
  (yields_isAt kind).then fun _ => yields_ite
    (fun _ => yields_advance.then fun _ => yields_pure trivial) fun _ => yields_pure trivial

theorem yields_expect (kind : TokenKind) (what : Expectation) :
    Yields (expect kind what) fun _ => True :=
  (yields_isAt kind).then fun _ => yields_ite (fun _ => yields_advance)
    fun _ => yields_unexpected what

theorem yields_identifier (what : Expectation) : Yields (identifier what) (· ≠ "") := by
  refine yields_currentKind.bind fun k hk => ?_
  split
  · exact yields_consume.then fun _ => yields_pure (by simpa [TokenKind.IsNamed] using hk)
  · exact yields_unexpected what

theorem yields_commaItems {α : Type} {item : Parser α} {Q : α → Prop} (h : Yields item Q)
    (n : Nat) : Yields (commaItems item n) fun as => ∀ a ∈ as, Q a := by
  induction n with
  | zero => exact yields_pure (by simp)
  | succ n ih =>
    refine (yields_eat _).then fun _ => yields_ite (fun _ => ?_) fun _ => yields_pure (by simp)
    refine h.bind fun a ha => ih.bind fun as has => yields_pure ?_
    intro b hb
    rcases List.mem_cons.1 hb with rfl | hb
    · exact ha
    · exact has b hb

theorem yields_commaList {α : Type} {item : Parser α} {Q : α → Prop} (h : Yields item Q) :
    Yields (commaList item) fun as => as ≠ [] ∧ ∀ a ∈ as, Q a := by
  refine h.bind fun a ha => yields_remaining.then fun n => ?_
  refine (yields_commaItems h n).bind fun as has => yields_pure ⟨by simp, ?_⟩
  intro b hb
  rcases List.mem_cons.1 hb with rfl | hb
  · exact ha
  · exact has b hb

/-! ## Columns and conditions -/

theorem yields_columnRef : Yields columnRef fun c => c.name ≠ "" := by
  refine (yields_identifier _).bind fun first hfirst => ?_
  refine (yields_eat _).then fun _ => yields_ite (fun _ => ?_) fun _ => yields_pure hfirst
  exact (yields_identifier _).bind fun name hname => yields_pure hname

/-- A column with a name, of the root or of a joined entity in its declared spelling. -/
def InScope (scope : Scope) (c : ColumnRef) : Prop :=
  c.name ≠ "" ∧ c.OwnedBy scope.joined

theorem inScope_of_bind {scope : Scope} {column bound : ColumnRef} {owner : Binding}
    (hname : column.name ≠ "") (h : scope.bind column = .ok (bound, owner)) :
    InScope scope bound := by
  obtain ⟨-, -, rfl⟩ := Scope.bind_eq_ok_iff.1 h
  exact ⟨hname, fun q hq => Scope.mem_of_declared hq⟩

theorem yields_boundColumn (scope : Scope) : Yields (boundColumn scope) (InScope scope) := by
  refine yields_currentPosition.then fun position => ?_
  refine yields_columnRef.bind fun column hname => ?_
  refine (yields_inScope position _).bind fun bound hbound => ?_
  exact yields_pure (inScope_of_bind hname hbound)

theorem yields_literalHere (negative : Bool) (start : Position) :
    Yields (literalHere negative start) fun _ => True := by
  refine yields_currentKind.bind fun k _ => ?_
  split
  · simp only []
    split
    · exact yields_pure trivial
    · exact yields_failAt _ _
  · exact yields_unexpected _
  · exact yields_pure trivial
  · exact yields_pure trivial
  · exact yields_pure trivial
  · exact yields_failHere _
  · exact yields_unexpected _

theorem yields_literal : Yields literal fun _ => True :=
  yields_currentPosition.then fun start => (yields_eat _).then fun negative =>
    (yields_literalHere negative start).then fun _ => yields_advance.then fun _ =>
      yields_pure trivial

/-- A condition on columns of the scope, whose lists are not empty. -/
def TestsIn (scope : Scope) (e : Condition) : Prop :=
  ∀ t ∈ e.tests, InScope scope t.1 ∧ Test.HasValues t.2

section Conditions

variable {scope : Scope}

theorem testsIn_test {column : ColumnRef} {test : Test} (hcolumn : InScope scope column)
    (htest : Test.HasValues test) : TestsIn scope (.test column test) := by
  intro t ht
  obtain rfl : t = (column, test) := by simpa [Condition.tests] using ht
  exact ⟨hcolumn, htest⟩

theorem testsIn_binary {op : Connective} {left right : Condition} (hl : TestsIn scope left)
    (hr : TestsIn scope right) : TestsIn scope (.binary op left right) := by
  intro t ht
  rcases List.mem_append.1 ht with ht | ht
  · exact hl t ht
  · exact hr t ht

theorem yields_literalFirst : Yields (literalFirst scope) (TestsIn scope) := by
  refine yields_literal.then fun value => yields_currentKind.bind fun k _ => ?_
  split
  · refine yields_advance.then fun _ => (yields_boundColumn scope).bind fun column hcolumn => ?_
    exact yields_pure (testsIn_test hcolumn trivial)
  · exact yields_unexpected _

theorem yields_comparison (op : Comparison) : Yields (comparison op) Test.HasValues := by
  refine yields_advance.then fun _ => yields_currentKind.bind fun k _ => ?_
  split
  · exact yields_failHere _
  · exact yields_failHere _
  · exact yields_literal.then fun value => yields_pure trivial

theorem yields_nullTest : Yields nullTest Test.HasValues :=
  yields_advance.then fun _ => (yields_eat _).then fun _ => (yields_expect _ _).then fun _ =>
    yields_pure trivial

theorem yields_likeTest : Yields likeTest Test.HasValues := by
  refine yields_advance.then fun _ => yields_currentKind.bind fun k _ => ?_
  split
  · exact yields_consume.then fun _ => yields_pure trivial
  · exact yields_unexpected _

theorem yields_amongTest : Yields amongTest Test.HasValues := by
  refine yields_advance.then fun _ => (yields_expect _ _).then fun _ => ?_
  refine (yields_isAt _).then fun _ => yields_ite (fun _ => yields_failHere _) fun _ => ?_
  refine (yields_commaList yields_literal).bind fun values hvalues => ?_
  exact (yields_expect _ _).then fun _ => yields_pure hvalues.1

theorem yields_betweenTest : Yields betweenTest Test.HasValues :=
  yields_advance.then fun _ => yields_literal.then fun _ => (yields_expect _ _).then fun _ =>
    yields_literal.then fun _ => yields_pure trivial

theorem yields_wordTest (otherwise : Expectation) : Yields (wordTest otherwise) Test.HasValues := by
  refine yields_currentKind.bind fun k _ => ?_
  split
  · exact yields_likeTest
  · exact yields_amongTest
  · exact yields_betweenTest
  · exact yields_unexpected _

theorem yields_columnTest {column : ColumnRef} (hcolumn : InScope scope column) :
    Yields (columnTest column) (TestsIn scope) := by
  have htest : ∀ {p : Parser Test}, Yields p Test.HasValues →
      Yields (p >>= fun test => pure (Condition.test column test)) (TestsIn scope) := fun h =>
    h.bind fun test htest => yields_pure (testsIn_test hcolumn htest)
  refine yields_currentKind.bind fun k _ => ?_
  split
  · exact htest yields_nullTest
  · refine yields_advance.then fun _ => (yields_wordTest _).bind fun test htest => ?_
    exact yields_pure (testsIn_test hcolumn htest)
  · split
    · exact htest (yields_comparison _)
    · exact htest (yields_wordTest _)

theorem yields_predicate {inner : Parser Condition} (h : Yields inner (TestsIn scope)) :
    Yields (predicate scope inner) (TestsIn scope) := by
  refine (yields_eat _).then fun _ => yields_ite (fun _ => ?_) fun _ => ?_
  · refine (yields_isAt _).then fun _ => yields_ite (fun _ => yields_failHere _) fun _ => ?_
    exact h.bind fun e he => (yields_expect _ _).then fun _ => yields_pure he
  · refine yields_currentKind.bind fun k _ => ?_
    refine yields_ite (fun _ => yields_literalFirst) fun _ => ?_
    split
    · exact (yields_boundColumn scope).bind fun column hcolumn => yields_columnTest hcolumn
    · exact yields_unexpected _

theorem yields_negation {operand : Parser Condition} (h : Yields operand (TestsIn scope))
    (n : Nat) : Yields (negation operand n) (TestsIn scope) := by
  induction n with
  | zero => exact h
  | succ n ih =>
    refine (yields_eat _).then fun _ => yields_ite (fun _ => ?_) fun _ => h
    exact ih.bind fun e he => yields_pure he

theorem yields_operands {op : Connective} {operand : Parser Condition}
    (h : Yields operand (TestsIn scope)) (n : Nat) {left : Condition}
    (hleft : TestsIn scope left) : Yields (operands op operand n left) (TestsIn scope) := by
  induction n generalizing left with
  | zero => exact yields_pure hleft
  | succ n ih =>
    refine (yields_eat _).then fun _ => yields_ite (fun _ => ?_) fun _ => yields_pure hleft
    exact h.bind fun right hright => ih (testsIn_binary hleft hright)

theorem yields_chain {op : Connective} {operand : Parser Condition}
    (h : Yields operand (TestsIn scope)) : Yields (chain op operand) (TestsIn scope) :=
  h.bind fun _ hfirst => yields_remaining.then fun n => yields_operands h n hfirst

theorem yields_conditionWithin (depth : Nat) :
    Yields (conditionWithin scope depth) (TestsIn scope) := by
  induction depth with
  | zero => exact yields_unexpected _
  | succ depth ih =>
    -- the parsers of the levels around each other, down to the operands
    exact yields_chain (yields_chain (yields_remaining.then fun n =>
      yields_negation (yields_predicate ih) n))

/-- A condition that is read refers to the scope and has no empty list. -/
theorem yields_condition : Yields (condition scope) (TestsIn scope) :=
  yields_remaining.then fun n => yields_conditionWithin (n + 1)

end Conditions

end Sql

end FetchQuery
