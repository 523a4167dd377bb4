import FetchQuery.Sql.Render
import FetchQuery.Proofs.Text.Lines
import FetchQuery.Proofs.Token.Spelling

/-!
# The lexemes of SQL text

What a statement is written with, as lexemes in place of characters: one function for every
part of a statement, down to `statementLexemes`. The text of each part is cut into exactly its
lexemes (`spells_column` to `spells_order`), whatever the names and values in it are. So
neither the layout nor the characters of the names have an influence on how the text of a
statement is cut (`lexemes_render`).
-/

set_option autoImplicit false

namespace FetchQuery

open Text

/-! ## Putting phrases together -/

section Phrases

variable {p q : Char → Bool} {a b : List Char} {la lb : List Lexeme}

theorem isBlank_space : isBlank ' ' = true := by
  decide

/-- Two phrases with a blank between them. -/
theorem Spells.spaced (h : Spells p a la) (h' : Spells q b lb) (hp : p ' ' = true) :
    Spells q (a ++ ' ' :: b) (la ++ lb) :=
  h.append_cons (h'.blank isBlank_space) hp

/-- A reserved word in front of a phrase. -/
theorem Spells.keyword (k : Keyword) (h : Spells q b lb) :
    Spells q (k.spelling.toList ++ ' ' :: b) (Lexeme.ofKeyword k :: lb) :=
  (spells_keyword k).spaced h (by decide)

/-- A reserved word in front of a phrase, which stands there only if `present` is set. -/
theorem Spells.optionalKeyword (present : Bool) (k : Keyword) (h : Spells q b lb) :
    Spells q ((if present then k.spelling.toList ++ [' '] else []) ++ b)
      ((if present then [Lexeme.ofKeyword k] else []) ++ lb) := by
  cases present with
  | false => exact h
  | true => simpa using h.keyword k

/-- A sign that needs no blank in front of a phrase. -/
theorem Spells.sign {s : Symbol} (hs : s.isSingle = true) (h : Spells q b lb) :
    Spells q (s.chars ++ b) (Lexeme.ofSymbol s :: lb) :=
  (spells_single hs).append h fun _ _ _ _ => rfl

/-- A closing parenthesis behind a phrase. -/
theorem Spells.closed (h : Spells p a la) (hp : p ')' = true) :
    Spells anyChar (a ++ [')']) (la ++ [Lexeme.ofSymbol .closeParen]) :=
  h.append_cons (spells_single (s := .closeParen) rfl) hp

/-- A phrase in parentheses. -/
theorem Spells.parenthesized (h : Spells p a la) (hp : p ')' = true) :
    Spells anyChar ('(' :: (a ++ [')']))
      (Lexeme.ofSymbol .openParen :: (la ++ [Lexeme.ofSymbol .closeParen])) :=
  (h.closed hp).sign (s := .openParen) rfl

theorem Spells.phrase (h : Spells endsName a la) : Spells endsPhrase a la :=
  h.mono fun _ => endsName_of_endsPhrase

theorem Spells.of_any (h : Spells anyChar a la) : Spells p a la :=
  h.mono fun _ _ => rfl

end Phrases

namespace Sql

/-! ## Columns and select items -/

/-- The lexemes of a name behind its qualifier. -/
def qualifiedLexemes (qualifier name : String) : List Lexeme :=
  [Lexeme.ofName qualifier, Lexeme.ofSymbol .dot, Lexeme.ofName name]

/-- The lexemes of a column reference. -/
def columnLexemes (root : Option String) (c : ColumnRef) : List Lexeme :=
  match c.qualifier.or root with
  | some q => qualifiedLexemes q c.name
  | none => [Lexeme.ofName c.name]

/-- The lexemes of a wildcard. -/
def wildcardLexemes : Option String → List Lexeme
  | some q => [Lexeme.ofName q, Lexeme.ofSymbol .dot, Lexeme.ofSymbol .star]
  | none => [Lexeme.ofSymbol .star]

/-- The lexemes of the argument of an aggregate function. -/
def argumentLexemes (root : Option String) : AggregateArgument → List Lexeme
  | .star => [Lexeme.ofSymbol .star]
  | .column c => columnLexemes root c

/-- The lexemes of an aggregate call from its opening parenthesis on. -/
def callLexemes (root : Option String) (call : AggregateCall) : List Lexeme :=
  Lexeme.ofSymbol .openParen :: ((if call.distinct then [Lexeme.ofKeyword .distinct] else []) ++
    argumentLexemes root call.argument ++ [Lexeme.ofSymbol .closeParen])

/-- The lexemes of a select value. -/
def valueLexemes (root : Option String) : SelectValue → List Lexeme
  | .column c => columnLexemes root c
  | .wildcard owner => wildcardLexemes (owner.or root)
  | .aggregate call => Lexeme.ofName call.function.sql :: callLexemes root call

/-- The lexemes of a label and the `AS` before it. -/
def labelLexemes : Option String → List Lexeme
  | some label => [Lexeme.ofKeyword .as, Lexeme.ofName label]
  | none => []

/-- The lexemes of an item of the select list. -/
def itemLexemes (root : Option String) (item : SelectItem) : List Lexeme :=
  valueLexemes root item.value ++ labelLexemes item.label

theorem spells_qualifiedName (qualifier name : String) :
    Spells endsName (qualifiedName qualifier name).toList (qualifiedLexemes qualifier name) := by
  have htext : (qualifiedName qualifier name).toList =
      (quoteName qualifier).toList ++ '.' :: (quoteName name).toList := by
    simp [qualifiedName]
  rw [htext]
  exact (spells_name qualifier).append_cons ((spells_name name).sign (s := .dot) rfl) (by decide)

theorem spells_column (root : Option String) (c : ColumnRef) :
    Spells endsName (columnText root c).toList (columnLexemes root c) := by
  rw [columnText, columnLexemes]
  cases c.qualifier.or root with
  | none => exact spells_name c.name
  | some q => exact spells_qualifiedName q c.name

theorem spells_star : Spells anyChar "*".toList [Lexeme.ofSymbol .star] :=
  spells_single (s := .star) rfl

theorem spells_wildcard (owner : Option String) :
    Spells anyChar (wildcardText owner).toList (wildcardLexemes owner) := by
  cases owner with
  | none => exact spells_star
  | some q =>
    have htext : (wildcardText (some q)).toList = (quoteName q).toList ++ ['.', '*'] := by
      simp [wildcardText]
    rw [htext]
    exact (spells_name q).append_cons (spells_star.sign (s := .dot) rfl) (by decide)

/-- The text of the argument of an aggregate function. -/
def argumentText (root : Option String) : AggregateArgument → String
  | .star => "*"
  | .column c => columnText root c

theorem aggregateText_eq (root : Option String) (call : AggregateCall) :
    aggregateText root call =
      call.function.sql ++ "(" ++ (if call.distinct then "DISTINCT " else "") ++
        argumentText root call.argument ++ ")" := by
  rw [aggregateText]
  cases call.argument <;> rfl

theorem spells_argument (root : Option String) (argument : AggregateArgument) :
    Spells endsName (argumentText root argument).toList (argumentLexemes root argument) := by
  cases argument with
  | star => exact spells_star.of_any
  | column c => exact spells_column root c

/-- The names of the functions are written without brackets. -/
theorem quoteName_function (f : AggregateFunction) : quoteName f.sql = f.sql := by
  cases f <;> decide +kernel

theorem spells_aggregate (root : Option String) (call : AggregateCall) :
    Spells anyChar (aggregateText root call).toList
      (Lexeme.ofName call.function.sql :: callLexemes root call) := by
  have hname := spells_name call.function.sql
  rw [quoteName_function] at hname
  have harg := spells_argument root call.argument
  rw [aggregateText_eq, callLexemes]
  cases call.distinct with
  | false =>
    have hcall := hname.append_cons (harg.parenthesized (by decide)) (by decide)
    simpa using hcall
  | true =>
    have hcall :=
      hname.append_cons ((harg.keyword .distinct).parenthesized (by decide)) (by decide)
    simpa [Keyword.spelling] using hcall

theorem spells_value (root : Option String) (value : SelectValue) :
    Spells endsName (valueText root value).toList (valueLexemes root value) := by
  cases value with
  | column c => exact spells_column root c
  | wildcard owner => exact (spells_wildcard (owner.or root)).of_any
  | aggregate call => exact (spells_aggregate root call).of_any

/-- A label may follow every phrase that may end before a blank. -/
theorem spells_labelled {p : Char → Bool} {a : List Char} {la : List Lexeme}
    (h : Spells p a la) (hp : ∀ c, endsPhrase c = true → p c = true) (label : Option String) :
    Spells endsPhrase (a ++ (labelText label).toList) (la ++ labelLexemes label) := by
  cases label with
  | none => simpa [labelText, labelLexemes] using h.mono hp
  | some label =>
    have hlabel := h.spaced ((spells_name label).keyword .as) (hp ' ' (by decide))
    simpa [labelText, labelLexemes, Keyword.spelling] using hlabel.phrase

theorem spells_item (root : Option String) (item : SelectItem) :
    Spells endsPhrase (itemText root item).toList (itemLexemes root item) := by
  rw [itemText, String.toList_append]
  exact spells_labelled (spells_value root item.value) (fun _ => endsName_of_endsPhrase) item.label

/-! ## Lists -/

/-- The lexemes of phrases separated by commas. -/
def commaLexemes : List (List Lexeme) → List Lexeme
  | [] => []
  | [phrase] => phrase
  | phrase :: rest => phrase ++ Lexeme.ofSymbol .comma :: commaLexemes rest

theorem spells_commaList {α : Type} {text : α → String} (ls : α → List Lexeme) (xs : List α)
    (h : ∀ x ∈ xs, Spells endsPhrase (text x).toList (ls x)) :
    Spells endsPhrase (", ".intercalate (xs.map text)).toList (commaLexemes (xs.map ls)) := by
  induction xs with
  | nil => exact spells_nil endsPhrase
  | cons x xs ih =>
    have hx := h x List.mem_cons_self
    have hxs := ih fun y hy => h y (List.mem_cons_of_mem x hy)
    cases xs with
    | nil => simpa [commaLexemes] using hx
    | cons y ys =>
      have htext : (", ".intercalate (text x :: (y :: ys).map text)).toList =
          (text x).toList ++ ',' :: ' ' :: (", ".intercalate ((y :: ys).map text)).toList := by
        rw [List.map_cons, String.intercalate_cons_cons]
        simp
      rw [List.map_cons, htext]
      exact hx.append_cons ((hxs.blank isBlank_space).sign (s := .comma) rfl) (by decide)

/-! ## Conditions -/

/-- The lexemes of a test of a column, or of its negated form where SQL has one. -/
def testLexemes (negated : Bool) : Test → List Lexeme
  | .compare op value => Lexeme.ofSymbol op.symbol :: value.lexemes
  | .null expected =>
    Lexeme.ofKeyword .is ::
      ((if expected then [] else [Lexeme.ofKeyword .not]) ++ [Lexeme.ofKeyword .null])
  | .among values =>
    (if negated then [Lexeme.ofKeyword .not] else []) ++ Lexeme.ofKeyword .in ::
      Lexeme.ofSymbol .openParen ::
        (commaLexemes (values.map Literal.lexemes) ++ [Lexeme.ofSymbol .closeParen])
  | .between low high =>
    (if negated then [Lexeme.ofKeyword .not] else []) ++ Lexeme.ofKeyword .between ::
      (low.lexemes ++ Lexeme.ofKeyword .and :: high.lexemes)
  | .like pattern =>
    (if negated then [Lexeme.ofKeyword .not] else []) ++
      [Lexeme.ofKeyword .like, Lexeme.ofString pattern]

/-- Lexemes in parentheses when they bind looser than the level around them. -/
def groupLexemes (level around : Nat) (ls : List Lexeme) : List Lexeme :=
  if level < around then Lexeme.ofSymbol .openParen :: (ls ++ [Lexeme.ofSymbol .closeParen]) else ls

/-- The lexemes of a condition within a context that binds at level `around`. -/
def conditionLexemes (root : Option String) : Condition → Nat → List Lexeme
  | .test column test, _ => columnLexemes root column ++ testLexemes false test
  | .binary op left right, around =>
    groupLexemes (connectiveLevel op) around
      (conditionLexemes root left (connectiveLevel op) ++ Lexeme.ofKeyword op.keyword ::
        conditionLexemes root right (connectiveLevel op + 1))
  | .not (.test column test), around =>
    if hasNegatedForm test then columnLexemes root column ++ testLexemes true test
    else groupLexemes 3 around
      (Lexeme.ofKeyword .not :: (columnLexemes root column ++ testLexemes false test))
  | .not inner, around =>
    groupLexemes 3 around (Lexeme.ofKeyword .not :: conditionLexemes root inner 4)

theorem spells_test {column : String} {ls : List Lexeme} (h : Spells endsName column.toList ls)
    (negated : Bool) (test : Test) :
    Spells endsPhrase (testText column negated test).toList (ls ++ testLexemes negated test) := by
  cases test with
  | compare op value =>
    have hright := (spells_comparison op).spaced (spells_literal value) isBlank_space
    simpa [testText, testLexemes] using h.spaced hright (by decide)
  | null expected =>
    -- the words of a test are put in front one by one, beginning at its end
    have hnull := (spells_keyword .null).optionalKeyword (!expected) .not
    have hright := hnull.keyword .is
    have htest := (h.spaced hright (by decide)).phrase
    cases expected <;> simpa [testText, testLexemes, Keyword.spelling] using htest
  | among values =>
    have hlist := spells_commaList Literal.lexemes values fun v _ => spells_literal v
    have hright := ((hlist.parenthesized (by decide)).keyword .in).optionalKeyword negated .not
    have htest := (h.spaced hright (by decide)).of_any (p := endsPhrase)
    cases negated <;> simpa [testText, testLexemes, literalList, Keyword.spelling] using htest
  | between low high =>
    have hhigh := (spells_literal high).keyword .and
    have hlow := (spells_literal low).spaced hhigh (by decide)
    have hright := (hlow.keyword .between).optionalKeyword negated .not
    have htest := h.spaced hright (by decide)
    cases negated <;> simpa [testText, testLexemes, Keyword.spelling] using htest
  | like pattern =>
    have hpattern := (spells_literal (.text pattern)).keyword .like
    have htest := h.spaced (hpattern.optionalKeyword negated .not) (by decide)
    cases negated <;>
      simpa [testText, testLexemes, Keyword.spelling, Literal.lexemes] using htest

theorem spells_parenthesized {text : String} {ls : List Lexeme}
    (h : Spells endsPhrase text.toList ls) (level around : Nat) :
    Spells endsPhrase (parenthesized level around text).toList (groupLexemes level around ls) := by
  by_cases hl : level < around
  · simpa [parenthesized, groupLexemes, hl] using (h.parenthesized (by decide)).of_any
  · simpa [parenthesized, groupLexemes, hl] using h

theorem spells_condition (root : Option String) (e : Condition) (around : Nat) :
    Spells endsPhrase (conditionText root e around).toList (conditionLexemes root e around) := by
  -- the cases are those of the printer, which has a rule of its own for a negated test
  fun_induction conditionText root e around with
  | case1 column test around => exact spells_test (spells_column root column) false test
  | case2 op left right around ihl ihr =>
    have hright := ihr.keyword op.keyword
    have hboth := ihl.spaced hright (by decide)
    refine spells_parenthesized ?_ (connectiveLevel op) around
    simpa [Connective.sql] using hboth
  | case3 column test around hform =>
    rw [conditionLexemes, if_pos hform]
    exact spells_test (spells_column root column) true test
  | case4 column test around hform =>
    rw [conditionLexemes, if_neg hform]
    refine spells_parenthesized ?_ 3 around
    simpa [Keyword.spelling] using
      (spells_test (spells_column root column) false test).keyword .not
  | case5 inner around hinner ih =>
    have hnot := ih.keyword .not
    -- both functions match on what is negated, to set a test apart
    cases inner with
    | test column test => exact absurd rfl (hinner column test)
    | binary op left right =>
      exact spells_parenthesized (by simpa [Keyword.spelling] using hnot) 3 around
    | not inner => exact spells_parenthesized (by simpa [Keyword.spelling] using hnot) 3 around

/-! ## Clauses -/

/-- The lexemes of the select list. -/
def selectListLexemes (s : Statement) : List Lexeme :=
  if s.allItems.isEmpty then [Lexeme.ofSymbol .star]
  else commaLexemes (s.allItems.map (itemLexemes (rootQualifier s)))

/-- The lexemes of the row count behind `TOP`. -/
def topLexemes : Option UInt64 → List Lexeme
  | some n => [Lexeme.ofKeyword .top, Lexeme.ofDigits (rowCountText n).toList]
  | none => []

/-- The lexemes of the `SELECT` clause. -/
def selectLexemes (s : Statement) : List Lexeme :=
  Lexeme.ofKeyword .select :: ((if s.distinct then [Lexeme.ofKeyword .distinct] else []) ++
    (topLexemes s.top ++ selectListLexemes s))

/-- The lexemes of the `FROM` clause. -/
def sourceLexemes (source : Source) : List Lexeme :=
  Lexeme.ofKeyword .from :: Lexeme.ofName source.entity :: labelLexemes source.label

/-- The lexemes of the words that introduce a join. -/
def kindLexemes : JoinKind → List Lexeme
  | .inner => [Lexeme.ofKeyword .inner, Lexeme.ofKeyword .join]
  | .outer => [Lexeme.ofKeyword .left, Lexeme.ofKeyword .outer, Lexeme.ofKeyword .join]

/-- The lexemes of a join. -/
def joinLexemes (root : String) (j : Join) : List Lexeme :=
  kindLexemes j.kind ++ Lexeme.ofName j.entity :: (labelLexemes j.label ++
    Lexeme.ofKeyword .on :: (qualifiedLexemes (j.parent.getD root) j.fromAttribute ++
      Lexeme.ofSymbol .equal :: qualifiedLexemes j.qualifier j.toAttribute))

/-- The reserved word of a sort direction. -/
def directionKeyword : Direction → Keyword
  | .ascending => .asc
  | .descending => .desc

/-- The lexemes of a sort column. -/
def orderLexemes (s : Statement) (item : OrderItem) : List Lexeme :=
  (if item.column.qualifier.isNone && (s.labelled? item.column.name).isSome then
      [Lexeme.ofName item.column.name]
    else columnLexemes (rootQualifier s) item.column) ++
    [Lexeme.ofKeyword (directionKeyword item.direction)]

/-- The lexemes of the `WHERE` clause. -/
def whereLexemes (s : Statement) : List Lexeme :=
  match s.condition with
  | some e => Lexeme.ofKeyword .where :: conditionLexemes (rootQualifier s) e 0
  | none => []

/-- The lexemes of the `GROUP BY` clause. -/
def groupByLexemes (s : Statement) : List Lexeme :=
  if s.groupBy.isEmpty then []
  else Lexeme.ofKeyword .group :: Lexeme.ofKeyword .by ::
    commaLexemes (s.groupBy.map (columnLexemes (rootQualifier s)))

/-- The lexemes of the `ORDER BY` clause. -/
def orderByLexemes (s : Statement) : List Lexeme :=
  if s.orderBy.isEmpty then []
  else Lexeme.ofKeyword .order :: Lexeme.ofKeyword .by ::
    commaLexemes (s.orderBy.map (orderLexemes s))

/-- The lexemes of all clauses. -/
def clauseLexemes (s : Statement) : List Lexeme :=
  selectLexemes s ++ (sourceLexemes s.source ++
    (s.joins.flatMap (joinLexemes s.source.qualifier) ++
      (whereLexemes s ++ (groupByLexemes s ++ orderByLexemes s))))

theorem spells_selectList (s : Statement) :
    Spells endsPhrase (selectListText s).toList (selectListLexemes s) := by
  rw [selectListText, selectListLexemes]
  by_cases h : s.allItems.isEmpty = true
  · rw [if_pos h, if_pos h]
    exact spells_star.of_any
  · rw [if_neg h, if_neg h]
    exact spells_commaList _ s.allItems fun item _ => spells_item (rootQualifier s) item

theorem spells_rowCount (n : UInt64) :
    Spells endsPhrase (rowCountText n).toList [Lexeme.ofDigits (rowCountText n).toList] := by
  rw [rowCountText, String.toList_ofList, ← Decimal.magnitudeChars_zero]
  exact spells_digits n.toNat 0

theorem spells_select (s : Statement) :
    Spells endsPhrase (selectText s).toList (selectLexemes s) := by
  have hlist := spells_selectList s
  rw [selectText, selectLexemes]
  cases s.top with
  | none =>
    have hselect := (hlist.optionalKeyword s.distinct .distinct).keyword .select
    cases hd : s.distinct <;> simpa [topLexemes, Keyword.spelling, hd] using hselect
  | some n =>
    have htop := ((spells_rowCount n).spaced hlist (by decide)).keyword .top
    have hselect := (htop.optionalKeyword s.distinct .distinct).keyword .select
    cases hd : s.distinct <;> simpa [topLexemes, Keyword.spelling, hd] using hselect

theorem spells_source (source : Source) :
    Spells endsPhrase (sourceText source).toList (sourceLexemes source) := by
  have hentity := (spells_name source.entity).keyword .from
  have hsource := spells_labelled hentity (fun _ => endsName_of_endsPhrase) source.label
  simpa [sourceText, sourceLexemes, Keyword.spelling] using hsource

theorem spells_join (root : String) (j : Join) :
    Spells endsPhrase (joinText root j).toList (joinLexemes root j) := by
  have hequal : Spells isBlank ['='] [Lexeme.ofSymbol .equal] := spells_comparison .eq
  have hto := hequal.spaced (spells_qualifiedName j.qualifier j.toAttribute) isBlank_space
  have hlink := (spells_qualifiedName (j.parent.getD root) j.fromAttribute).spaced hto (by decide)
  have hentity :=
    spells_labelled (spells_name j.entity) (fun _ => endsName_of_endsPhrase) j.label
  have hjoin := (hentity.spaced (hlink.keyword .on) (by decide)).phrase
  rw [joinText, joinLexemes]
  cases j.kind with
  | inner =>
    simpa [JoinKind.sql, kindLexemes, Keyword.spelling] using
      (hjoin.keyword .join).keyword .inner
  | outer =>
    simpa [JoinKind.sql, kindLexemes, Keyword.spelling] using
      ((hjoin.keyword .join).keyword .outer).keyword .left

theorem spells_order (s : Statement) (item : OrderItem) :
    Spells endsPhrase (orderText s item).toList (orderLexemes s item) := by
  have hdirection : Spells endsName item.direction.sql.toList
      [Lexeme.ofKeyword (directionKeyword item.direction)] := by
    cases item.direction with
    | ascending => exact spells_keyword .asc
    | descending => exact spells_keyword .desc
  rw [orderText, orderLexemes]
  split
  · simpa using ((spells_name item.column.name).spaced hdirection (by decide)).phrase
  · simpa using ((spells_column (rootQualifier s) item.column).spaced hdirection (by decide)).phrase

/-! ## Statements -/

/-- Texts that are cut into the given lexemes when they follow each other with a blank
between them. -/
inductive CutsInto : List String → List Lexeme → Prop where
  | nil : CutsInto [] []
  | cons {text : String} {texts : List String} {l ls : List Lexeme}
      (first : Spells endsPhrase text.toList l) (rest : CutsInto texts ls) :
      CutsInto (text :: texts) (l ++ ls)

namespace CutsInto

theorem one {text : String} {l : List Lexeme} (h : Spells endsPhrase text.toList l) :
    CutsInto [text] l := by
  simpa using cons h nil

theorem append {texts texts' : List String} {ls ls' : List Lexeme} (h : CutsInto texts ls)
    (h' : CutsInto texts' ls') : CutsInto (texts ++ texts') (ls ++ ls') := by
  induction h with
  | nil => exact h'
  | cons first _ ih =>
    rw [List.cons_append, List.append_assoc]
    exact cons first ih

/-- Clauses are cut apart at what the layout puts between them. -/
theorem spells {texts : List String} {ls : List Lexeme} (h : CutsInto texts ls)
    (layout : Layout) :
    Spells endsPhrase (layout.separator.intercalate texts).toList ls := by
  -- in both layouts the separator is one blank character
  have hsep : ∃ c, layout.separator.toList = [c] ∧ isBlank c = true := by
    cases layout with
    | pretty => exact ⟨'\n', by decide, by decide⟩
    | compact => exact ⟨' ', by decide, by decide⟩
  obtain ⟨c, hc, hblank⟩ := hsep
  induction h with
  | nil => exact spells_nil endsPhrase
  | @cons text texts l ls first rest ih =>
    cases texts with
    | nil =>
      cases rest
      simpa using first
    | cons text' texts' =>
      have htext : (layout.separator.intercalate (text :: text' :: texts')).toList =
          text.toList ++ c :: (layout.separator.intercalate (text' :: texts')).toList := by
        rw [String.intercalate_cons_cons]
        simp [hc]
      rw [htext]
      exact first.append_cons (ih.blank hblank) (endsPhrase_of_isBlank hblank)

end CutsInto

theorem cutsInto_joins (root : String) (joins : List Join) :
    CutsInto (joins.map (joinText root)) (joins.flatMap (joinLexemes root)) := by
  induction joins with
  | nil => exact .nil
  | cons j joins ih =>
    rw [List.map_cons, List.flatMap_cons]
    exact .cons (spells_join root j) ih

theorem cutsInto_where (s : Statement) :
    CutsInto
      (match s.condition with
        | some e => ["WHERE " ++ conditionText (rootQualifier s) e 0]
        | none => [])
      (whereLexemes s) := by
  rw [whereLexemes]
  cases s.condition with
  | none => exact .nil
  | some e =>
    have hwhere := (spells_condition (rootQualifier s) e 0).keyword .where
    exact .one (by simpa [Keyword.spelling] using hwhere)

theorem cutsInto_groupBy (s : Statement) :
    CutsInto
      (if s.groupBy.isEmpty then []
        else ["GROUP BY " ++ ", ".intercalate (s.groupBy.map (columnText (rootQualifier s)))])
      (groupByLexemes s) := by
  have hlist := spells_commaList _ s.groupBy fun c _ => (spells_column (rootQualifier s) c).phrase
  have hgroup := (hlist.keyword .by).keyword .group
  rw [groupByLexemes]
  split
  · exact .nil
  · exact .one (by simpa [Keyword.spelling] using hgroup)

theorem cutsInto_orderBy (s : Statement) :
    CutsInto
      (if s.orderBy.isEmpty then []
        else ["ORDER BY " ++ ", ".intercalate (s.orderBy.map (orderText s))])
      (orderByLexemes s) := by
  have hlist := spells_commaList _ s.orderBy fun item _ => spells_order s item
  have horder := (hlist.keyword .by).keyword .order
  rw [orderByLexemes]
  split
  · exact .nil
  · exact .one (by simpa [Keyword.spelling] using horder)

theorem cutsInto_clauses (s : Statement) : CutsInto (clauses s) (clauseLexemes s) := by
  have hhead := CutsInto.cons (spells_select s) (.one (spells_source s.source))
  have hjoins := hhead.append (cutsInto_joins s.source.qualifier s.joins)
  have hwhere := hjoins.append (cutsInto_where s)
  have hall : CutsInto (clauses s) _ :=
    (hwhere.append (cutsInto_groupBy s)).append (cutsInto_orderBy s)
  simpa only [clauseLexemes, List.append_assoc] using hall

/-- The lexeme of a line comment with the given body. -/
def ofComment (body : String) : Lexeme :=
  ⟨.comment body, '-' :: '-' :: ' ' :: body.toList⟩

/-- A trimmed line behind two hyphens is a comment with this line as its body. -/
theorem spells_comment {line : String} (htrim : trimChars line.toList = line.toList)
    (hfeed : '\n' ∉ line.toList) :
    Spells anyChar ("-- " ++ line ++ "\n").toList [ofComment line] := by
  have htext : ("-- " ++ line ++ "\n").toList = ('-' :: '-' :: ' ' :: line.toList) ++ ['\n'] := by
    simp
  have hcomment : Spells (· == '\n') ('-' :: '-' :: ' ' :: line.toList) [ofComment line] := by
    apply spells_one (by decide) rfl
    intro rest hrest
    -- the comment ends at the line feed behind the line
    have hbody : (' ' :: line.toList ++ rest).takeWhile (· != '\n') = ' ' :: line.toList := by
      refine takeWhile_append_of_before ?_ hrest fun c hc => by simpa using hc
      intro c hc
      rcases List.mem_cons.1 hc with rfl | hc
      · decide
      · simpa using fun h : c = '\n' => hfeed (h ▸ hc)
    have hlex : lexeme '-' ('-' :: (' ' :: line.toList ++ rest)) =
        Lexeme.lineComment (' ' :: line.toList ++ rest) := by
      simp [lexeme]
    rw [List.cons_append, hlex, Lexeme.lineComment, hbody, ofComment,
      trimChars_cons_of_blank isBlank_space, htrim, String.ofList_toList]
  rw [htext]
  exact hcomment.append_cons ((spells_nil anyChar).blank (by decide)) rfl

theorem trimChars_commentLine {s : Statement} {line : String} (h : line ∈ commentLines s) :
    trimChars line.toList = line.toList ∧ '\n' ∉ line.toList := by
  simp only [commentLines, List.mem_flatMap, List.mem_map, lines] at h
  obtain ⟨comment, -, text, ⟨cs, hcs, rfl⟩, rfl⟩ := h
  rw [toList_trim, String.toList_ofList]
  exact ⟨trimChars_trimChars cs, fun hfeed =>
    not_mem_of_mem_lineChars hcs (mem_of_mem_trimChars hfeed)⟩

/-- The comments of a statement are written as comments with the trimmed lines as bodies. -/
theorem spells_comments (s : Statement) :
    Spells anyChar (commentText s).toList ((commentLines s).map ofComment) := by
  have hlines : ∀ line ∈ commentLines s,
      Spells anyChar ("-- " ++ line ++ "\n").toList [ofComment line] := by
    intro line hline
    have h := trimChars_commentLine hline
    exact spells_comment h.1 h.2
  rw [commentText]
  -- all that matters of the lines is that they are trimmed
  generalize commentLines s = lines at hlines ⊢
  induction lines with
  | nil => exact spells_nil anyChar
  | cons line rest ih =>
    rw [List.map_cons, List.map_cons, String.join_cons, String.toList_append]
    exact (hlines line List.mem_cons_self).append
      (ih fun l hl => hlines l (List.mem_cons_of_mem line hl)) fun _ _ _ _ => rfl

/-- The lexemes of a statement: its comments and its clauses. -/
def statementLexemes (s : Statement) : List Lexeme :=
  (commentLines s).map ofComment ++ clauseLexemes s

/-- The text of a statement is cut into the same lexemes in both layouts. -/
theorem lexemes_render (layout : Layout) (s : Statement) :
    lexemes (render layout s).toList = statementLexemes s := by
  have htext := (spells_comments s).append ((cutsInto_clauses s).spells layout) fun _ _ _ _ => rfl
  have hlex := htext [] (before_nil endsPhrase)
  rwa [List.append_nil, ← String.toList_append, lexemes_nil, List.append_nil] at hlex

end Sql

end FetchQuery
