import FetchQuery.Proofs.Fetch.Contents
import FetchQuery.Proofs.Fetch.FilterMeaning
import FetchQuery.Proofs.LiteralTyping

/-!
# The filters of a document and the condition of a statement

A document states its condition in filters: those of the entity and those of the links inside
it, at any depth, each a tree of filter and condition elements. A statement has one condition.
This module compares the two for documents that are read without a warning.

The tests of the condition are the condition elements in document order, each on the column that
the element names and with the operator and the values that it has (`States`). So the condition
and the filters are trees over the same leaves, and they are compared by their values when the
leaves are numbered from left to right and every leaf is given any value of the three-valued
logic: `Condition.valueAt` for the condition, `valueOf` for an element. An operator in
`negatedNames` is read as the negation of a test, so the element has the opposite value of its
leaf; `not-null` is a test of its own.

A condition element is read exactly if it states a test (`readCondition_eq_ok`). Reading follows
the recursion of the filters (`readFilter_quiet`), joining operands is associative
(`chain?_spec`), and replacing the qualifiers of known entities keeps the tree
(`retainKnown_quiet`).
-/

set_option autoImplicit false

namespace FetchQuery

/-! ## Values of conditions -/

/-- The value of a condition whose tests are numbered from `n` on. -/
def Condition.valueAt (v : Nat → Kleene) : Nat → Condition → Kleene
  | n, .test _ _ => v n
  | n, .binary op left right =>
    Kleene.combine op (left.valueAt v n) (right.valueAt v (n + left.tests.length))
  | n, .not inner => (inner.valueAt v n).not

/-- The value of conditions under a connective, with their tests numbered one after the other. -/
def Condition.valueAll (v : Nat → Kleene) (op : Connective) : Nat → List Condition → Kleene
  | _, [] => Kleene.unit op
  | n, e :: rest => Kleene.combine op (e.valueAt v n) (valueAll v op (n + e.tests.length) rest)

theorem Condition.foldl_binary_spec (op : Connective) (first : Condition) (rest : List Condition) :
    (rest.foldl (.binary op) first).tests = first.tests ++ rest.flatMap tests ∧
      ∀ (v : Nat → Kleene) (n : Nat), (rest.foldl (.binary op) first).valueAt v n =
        Kleene.combine op (first.valueAt v n) (valueAll v op (n + first.tests.length) rest) := by
  induction rest generalizing first with
  | nil => simp [valueAll]
  | cons second rest ih =>
    obtain ⟨htests, hvalue⟩ := ih (.binary op first second)
    constructor
    · rw [List.foldl_cons, htests, tests, List.flatMap_cons, List.append_assoc]
    · intro v n
      rw [List.foldl_cons, hvalue, valueAt, valueAll, tests, List.length_append,
        Kleene.combine_assoc, ← Nat.add_assoc]

/-- A chain has the tests of its operands in order, and their value under the connective. -/
theorem Condition.chain?_spec {op : Connective} {operands : List Condition} {e : Condition}
    (h : chain? op operands = some e) :
    e.tests = operands.flatMap tests ∧
      ∀ (v : Nat → Kleene) (n : Nat), e.valueAt v n = valueAll v op n operands := by
  cases operands with
  | nil => cases h
  | cons first rest =>
    cases h
    exact foldl_binary_spec op first rest

namespace Fetch

deriving instance DecidableEq for Reading

open Xml

/-! ## Values of filters -/

/-- The operators that negate another one. -/
def negatedNames : List String :=
  ["not-like", "not-begins-with", "not-begin-with", "not-ends-with", "not-end-with", "not-in",
   "not-between"]

/-- Whether the operator of a condition element is the negation of another operator. -/
def negates (e : Element) : Bool :=
  (e.attr? "operator").any negatedNames.contains

/-- The connective of the operands of a filter element. -/
def connectiveOf (e : Element) : Connective :=
  if e.attr? "type" = some "or" then .or else .and

mutual

/-- The condition elements of a filter element and of the filters inside it, in document order. A
condition element is its own one. -/
def conditionsOf : Element → List Element
  | e@⟨name, _, children, _⟩ =>
    if name = "condition" then [e]
    else if name = "filter" then conditionsAmong children
    else []

/-- The condition elements of the children of a filter element. -/
def conditionsAmong : List Element → List Element
  | [] => []
  | child :: rest => conditionsOf child ++ conditionsAmong rest

end

mutual

/-- The value of a condition or filter element whose condition elements are numbered from `n` on. -/
def valueOf (v : Nat → Kleene) : Nat → Element → Kleene
  | n, e@⟨name, _, children, _⟩ =>
    if name = "condition" then Kleene.notIf (negates e) (v n)
    else valueAmong v (connectiveOf e) n children

/-- The value of the condition and filter elements among others under a connective. -/
def valueAmong (v : Nat → Kleene) (op : Connective) : Nat → List Element → Kleene
  | _, [] => Kleene.unit op
  | n, child :: rest =>
    if child.name = "condition" ∨ child.name = "filter" then
      Kleene.combine op (valueOf v n child)
        (valueAmong v op (n + (conditionsOf child).length) rest)
    else valueAmong v op n rest

end

/-- The filter elements of an entity and of the links inside it, each with its entity. -/
def filtersOf (entity : Element) : List (Owner × Element) :=
  (entityContents entity).filter fun p => p.2.name = "filter"

/-- All condition elements of the filters of an entity and of the links inside it, each with the
entity whose filter it stands in. -/
def conditionElements (entity : Element) : List (Owner × Element) :=
  (filtersOf entity).flatMap fun p => (conditionsOf p.2).map fun e => (p.1, e)

/-! ## Reading condition elements -/

/-- The operators that compare. -/
inductive ComparisonName : String → Comparison → Prop
  | eq : ComparisonName "eq" .eq
  | ne : ComparisonName "ne" .ne
  | neq : ComparisonName "neq" .ne
  | lt : ComparisonName "lt" .lt
  | le : ComparisonName "le" .le
  | gt : ComparisonName "gt" .gt
  | ge : ComparisonName "ge" .ge

/-- The operators that can be negated by their name, with the tests they make of value texts. A
pattern is made of the first one. -/
inductive NamedTest : String → List String → Test → Prop
  | like (value : String) (more : List String) : NamedTest "like" (value :: more) (.like value)
  | beginsWith (value : String) (more : List String) :
    NamedTest "begins-with" (value :: more) (.like (value ++ "%"))
  | beginWith (value : String) (more : List String) :
    NamedTest "begin-with" (value :: more) (.like (value ++ "%"))
  | endsWith (value : String) (more : List String) :
    NamedTest "ends-with" (value :: more) (.like ("%" ++ value))
  | endWith (value : String) (more : List String) :
    NamedTest "end-with" (value :: more) (.like ("%" ++ value))
  | among {texts : List String} {values : List Literal} (hne : texts ≠ [])
    (h : List.Forall₂ Literal.TypedAs texts values) : NamedTest "in" texts (.among values)
  | between {first second : String} {low high : Literal} (hlow : Literal.TypedAs first low)
    (hhigh : Literal.TypedAs second high) :
    NamedTest "between" [first, second] (.between low high)

/-- What an operator states of value texts: a test or, with `true`, the negation of the test. -/
inductive OperatorStates : String → List String → Bool → Test → Prop
  | compare {operator text : String} {op : Comparison} {value : Literal}
    (hname : ComparisonName operator op) (hvalue : Literal.TypedAs text value)
    (more : List String) : OperatorStates operator (text :: more) false (.compare op value)
  | null (texts : List String) : OperatorStates "null" texts false (.null true)
  | notNull (texts : List String) : OperatorStates "not-null" texts false (.null false)
  | plain {operator : String} {texts : List String} {test : Test}
    (h : NamedTest operator texts test) : OperatorStates operator texts false test
  | negated {operator : String} {texts : List String} {test : Test}
    (h : NamedTest operator texts test) : OperatorStates ("not-" ++ operator) texts true test

/-- The test that a condition element states on the column it names. The column belongs to the
entity with the qualifier `owner` unless the element names another. The value texts are that of its
attribute and those of its elements behind it. -/
def States (owner : Option String) (e : Element) (leaf : ColumnRef × Test) : Prop :=
  ∃ name operator, e.attr? "attribute" = some name ∧ e.attr? "operator" = some operator ∧
    leaf.1 = ⟨(e.attr? "entityname").or owner, name⟩ ∧
    OperatorStates operator
      ((e.attr? "value").toList ++ (e.childrenNamed "value").map Element.text) (negates e) leaf.2

theorem comparisonName_iff {operator : String} {op : Comparison} :
    ComparisonName operator op ↔ Comparison.ofFetch? operator = some op := by
  constructor
  · intro h
    cases h <;> rfl
  · intro h
    unfold Comparison.ofFetch? at h
    split at h <;> cases h <;> constructor

/-- The name of an operator, with the mark of a negation or without it. -/
def markedName (negated : Bool) (name : String) : String :=
  if negated then "not-" ++ name else name

theorem eq_markedName (operator : String) :
    operator = markedName (splitNegation operator).2 (splitNegation operator).1 := by
  rw [splitNegation]
  split
  · next rest hlist =>
    rw [markedName, if_pos rfl, ← String.toList_inj, hlist, String.toList_append,
      String.toList_ofList]
    simp
  · rfl

section Operators

variable {operator positive : String} {column : ColumnRef} {texts : List String} {test : Test}
  {c : Condition}

theorem namedTest_of_likeTest {pattern : String → String}
    (hpattern : ∀ value more, NamedTest positive (value :: more) (.like (pattern value)))
    (h : likeTest operator column.name texts pattern = .ok test) :
    NamedTest positive texts test := by
  cases texts with
  | nil => cases h
  | cons value more =>
    cases h
    exact hpattern value more

theorem namedTest_of_listTest (h : listTest column.name texts = .ok test) :
    NamedTest "in" texts test := by
  cases texts with
  | nil => cases h
  | cons text more =>
    cases h
    exact .among (by simp) (Literal.forall₂_typedAs_iff.2 rfl)

theorem namedTest_of_rangeTest (h : rangeTest column.name texts = .ok test) :
    NamedTest "between" texts test := by
  unfold rangeTest at h
  split at h
  · cases h
    exact .between (Literal.typedAs_iff.2 rfl) (Literal.typedAs_iff.2 rfl)
  · cases h

theorem NamedTest.states (h : NamedTest positive texts test) (negated : Bool) :
    OperatorStates (markedName negated positive) texts negated test := by
  cases negated with
  | false => exact .plain h
  | true => exact .negated h

/-- An operator whose name without the mark is that of a test states the test or its negation. -/
theorem exists_of_map (hpositive : (splitNegation operator).1 = positive)
    {read : Except Warning Test} (hread : ∀ test, read = .ok test → NamedTest positive texts test)
    (h : (read.map fun test => negatedIf (splitNegation operator).2 (.test column test)) = .ok c) :
    ∃ negated test, OperatorStates operator texts negated test ∧
      c = negatedIf negated (.test column test) := by
  have hoperator := eq_markedName operator
  rw [hpositive] at hoperator
  cases read with
  | error warning => cases h
  | ok test =>
    cases h
    generalize (splitNegation operator).2 = negated at hoperator
    rw [hoperator]
    exact ⟨negated, test, (hread test rfl).states negated, rfl⟩

/-- The test for a value that is missing has an opposite test, so it is never negated. -/
theorem operatorStates_null (hpositive : (splitNegation operator).1 = "null") :
    OperatorStates operator texts false (.null !(splitNegation operator).2) := by
  have hoperator := eq_markedName operator
  rw [hpositive] at hoperator
  generalize (splitNegation operator).2 = negated at hoperator
  rw [hoperator]
  cases negated with
  | false => exact .null texts
  | true => exact .notNull texts

theorem exists_of_readNamedTest (h : readNamedTest operator column texts = .ok c) :
    ∃ negated test, OperatorStates operator texts negated test ∧
      c = negatedIf negated (.test column test) := by
  simp only [readNamedTest] at h
  -- the name without the mark decides; only `null` has a test of its own for the negation
  split at h
  · next hpositive =>
    exact exists_of_map hpositive (fun _ => namedTest_of_likeTest .like) h
  · next hpositive =>
    exact exists_of_map hpositive (fun _ => namedTest_of_likeTest .beginsWith) h
  · next hpositive =>
    exact exists_of_map hpositive (fun _ => namedTest_of_likeTest .beginWith) h
  · next hpositive =>
    exact exists_of_map hpositive (fun _ => namedTest_of_likeTest .endsWith) h
  · next hpositive =>
    exact exists_of_map hpositive (fun _ => namedTest_of_likeTest .endWith) h
  · next hpositive =>
    exact exists_of_map hpositive (fun _ => namedTest_of_listTest) h
  · next hpositive =>
    exact exists_of_map hpositive (fun _ => namedTest_of_rangeTest) h
  · next hpositive =>
    cases h
    exact ⟨false, _, operatorStates_null hpositive, rfl⟩
  · cases h

theorem NamedTest.readTest_eq (h : NamedTest operator texts test) (negated : Bool) :
    readTest (markedName negated operator) column texts =
      .ok (negatedIf negated (.test column test)) := by
  -- every name is a literal here, so the reader computes as soon as the texts are told apart
  cases h with
  | among hne h =>
    obtain rfl := Literal.forall₂_typedAs_iff.1 h
    obtain ⟨text, more, rfl⟩ := List.exists_cons_of_ne_nil hne
    cases negated <;> rfl
  | between hlow hhigh =>
    obtain rfl := Literal.typedAs_iff.1 hlow
    obtain rfl := Literal.typedAs_iff.1 hhigh
    cases negated <;> rfl
  | _ => cases negated <;> rfl

/-- An operator with its value texts is read exactly if it states a test of them. -/
theorem readTest_eq_ok :
    readTest operator column texts = .ok c ↔ ∃ negated test,
      OperatorStates operator texts negated test ∧ c = negatedIf negated (.test column test) := by
  constructor
  · intro h
    rw [readTest] at h
    cases hop : Comparison.ofFetch? operator with
    | some op =>
      rw [hop] at h
      cases texts with
      | nil => cases h
      | cons text more =>
        cases h
        exact ⟨false, _, .compare (comparisonName_iff.2 hop) (Literal.typedAs_iff.2 rfl) more, rfl⟩
    | none =>
      rw [hop] at h
      exact exists_of_readNamedTest h
  · rintro ⟨negated, test, h, rfl⟩
    cases h with
    | compare hname hvalue more =>
      rw [readTest, comparisonName_iff.1 hname, ← Literal.typedAs_iff.1 hvalue]
      rfl
    | null => rfl
    | notNull => rfl
    | plain h => exact h.readTest_eq false
    | negated h => exact h.readTest_eq true

/-- The negated operators are told by their names. -/
theorem OperatorStates.negated_eq {negated : Bool}
    (h : OperatorStates operator texts negated test) :
    negated = negatedNames.contains operator := by
  cases h with
  | compare hname hvalue more => cases hname <;> decide
  | null => decide
  | notNull => decide
  | plain h => cases h <;> decide
  | negated h => cases h <;> decide

/-- A list test has values. -/
theorem NamedTest.ne_among_nil (h : NamedTest operator texts test) : test ≠ .among [] := by
  cases h with
  | among hne h =>
    rintro ⟨⟩
    exact hne (List.forall₂_nil_right_iff.1 h)
  | _ => simp

theorem OperatorStates.ne_among_nil {negated : Bool}
    (h : OperatorStates operator texts negated test) : test ≠ .among [] := by
  cases h with
  | plain h => exact h.ne_among_nil
  | negated h => exact h.ne_among_nil
  | _ => simp

end Operators

theorem States.ne_among_nil {owner : Option String} {e : Element} {leaf : ColumnRef × Test}
    (h : States owner e leaf) : leaf.2 ≠ .among [] := by
  obtain ⟨name, operator, -, -, -, hstates⟩ := h
  exact hstates.ne_among_nil

/-- A condition element is read exactly if it states a test, as the negation of the test if its
operator is one. -/
theorem readCondition_eq_ok {owner : Option String} {e : Element} {c : Condition} :
    readCondition owner e = .ok c ↔
      ∃ leaf, States owner e leaf ∧ c = negatedIf (negates e) (.test leaf.1 leaf.2) := by
  have hnegates : ∀ {operator texts negated test}, e.attr? "operator" = some operator →
      OperatorStates operator texts negated test → negated = negates e := by
    intro operator texts negated test hoperator h
    rw [negates, hoperator, Option.any_some, h.negated_eq]
  rw [readCondition]
  constructor
  · intro h
    split at h
    · cases h
    · cases h
    · next name operator hname hoperator =>
      obtain ⟨negated, test, hstates, rfl⟩ := readTest_eq_ok.1 h
      obtain rfl := hnegates hoperator hstates
      exact ⟨(_, test), ⟨name, operator, hname, hoperator, rfl, hstates⟩, rfl⟩
  · rintro ⟨⟨column, test⟩, ⟨name, operator, hname, hoperator, rfl, hstates⟩, rfl⟩
    rw [hname, hoperator]
    exact readTest_eq_ok.2 ⟨_, test, hstates, rfl⟩

theorem tests_negatedIf (negated : Bool) (e : Condition) :
    (negatedIf negated e).tests = e.tests := by
  cases negated <;> rfl

theorem valueAt_negatedIf (v : Nat → Kleene) (n : Nat) (negated : Bool) (e : Condition) :
    (negatedIf negated e).valueAt v n = Kleene.notIf negated (e.valueAt v n) := by
  cases negated <;> rfl

/-! ## Reading filters -/

theorem filterConnective_value (e : Element) : (filterConnective e).value = connectiveOf e := by
  rw [filterConnective, connectiveOf]
  split <;> simp_all

/-- The operands of a filter that are read without warnings: their tests are the condition elements
in order, and under any connective they have the value of the elements. -/
structure OperandsOf (owner : Option String) (xs : List Element) (operands : List Condition) :
    Prop where
  leaves : List.Forall₂ (States owner) (conditionsAmong xs) (operands.flatMap Condition.tests)
  value : ∀ (v : Nat → Kleene) (op : Connective) (n : Nat),
    Condition.valueAll v op n operands = valueAmong v op n xs

/-- The condition of a single element that is read without warnings. -/
structure ConditionOf (owner : Option String) (e : Element) (c : Condition) : Prop where
  leaves : List.Forall₂ (States owner) (conditionsOf e) c.tests
  value : ∀ (v : Nat → Kleene) (n : Nat), c.valueAt v n = valueOf v n e

theorem conditionOf_condition {owner : Option String} {e : Element} {c : Condition}
    (hname : e.name = "condition") (h : readCondition owner e = .ok c) : ConditionOf owner e c := by
  obtain ⟨name, attributes, children, text⟩ := e
  obtain ⟨leaf, hleaf, rfl⟩ := readCondition_eq_ok.1 h
  constructor
  · rw [conditionsOf, if_pos hname, tests_negatedIf, Condition.tests]
    exact .cons hleaf .nil
  · intro v n
    rw [valueOf, if_pos hname, valueAt_negatedIf, Condition.valueAt]

/-- An operand before others. -/
theorem OperandsOf.cons {owner : Option String} {e : Element} {rest : List Element} {c : Condition}
    {operands : List Condition} (hname : e.name = "condition" ∨ e.name = "filter")
    (he : ConditionOf owner e c) (hrest : OperandsOf owner rest operands) :
    OperandsOf owner (e :: rest) (c :: operands) where
  leaves := by
    rw [conditionsAmong, List.flatMap_cons]
    exact List.rel_append he.leaves hrest.leaves
  value := by
    intro v op n
    -- the rest is numbered behind the leaves of the operand, of which there are as many on both sides
    rw [valueAmong, if_pos hname, Condition.valueAll, he.value, hrest.value,
      he.leaves.length_eq]

mutual

/-- A filter that is read without warnings states a condition on its condition elements. -/
theorem readFilter_quiet (owner : Option String) : ∀ e : Element, e.name = "filter" →
    (readFilter owner e).warnings = [] →
      ∃ c, (readFilter owner e).value = some c ∧ ConditionOf owner e c
  | ⟨name, attributes, children, text⟩, hname, hquiet => by
    rw [readFilter, joinOperands, filterConnective_value] at *
    cases hchain : Condition.chain? (connectiveOf ⟨name, attributes, children, text⟩)
        (readOperands owner children).value with
    | none => simp [hchain] at hquiet
    | some c =>
      simp only [hchain, List.append_eq_nil_iff] at hquiet
      obtain ⟨htests, hvalue⟩ := Condition.chain?_spec hchain
      have hoperands := readOperands_quiet owner children hquiet.2
      have hother : name ≠ "condition" := by
        rintro rfl
        simp at hname
      refine ⟨c, rfl, ⟨?_, ?_⟩⟩
      · rw [conditionsOf, if_neg hother, if_pos hname, htests]
        exact hoperands.leaves
      · intro v n
        rw [valueOf, if_neg hother, hvalue, hoperands.value]

/-- Operands that are read without warnings are all there. -/
theorem readOperands_quiet (owner : Option String) : ∀ xs : List Element,
    (readOperands owner xs).warnings = [] → OperandsOf owner xs (readOperands owner xs).value
  | [], _ => by
    rw [readOperands]
    exact ⟨.nil, fun v op n => by rw [Condition.valueAll, valueAmong]⟩
  | child :: rest, hquiet => by
    simp only [readOperands, List.append_eq_nil_iff] at hquiet ⊢
    obtain ⟨hchild, hrest⟩ := hquiet
    have hoperands := readOperands_quiet owner rest hrest
    split at hchild
    · next hname =>
      rw [if_pos hname]
      cases hread : readCondition owner child with
      | error warning => simp [hread, Reading.ofExcept] at hchild
      | ok c => exact .cons (.inl hname) (conditionOf_condition hname hread) hoperands
    next hother =>
    split at hchild
    · next hname =>
      rw [if_neg hother, if_pos hname]
      obtain ⟨c, hc, hcondition⟩ := readFilter_quiet owner child hname hchild
      rw [hc]
      exact .cons (.inr hname) hcondition hoperands
    · cases hchild

end

/-! ## The condition of a statement -/

/-- Two correspondences one after the other. -/
theorem forall₂_comp {α β γ : Type} {R : α → β → Prop} {S : β → γ → Prop} {as : List α}
    {bs : List β} {cs : List γ} (hR : List.Forall₂ R as bs) (hS : List.Forall₂ S bs cs) :
    List.Forall₂ (fun a c => ∃ b, R a b ∧ S b c) as cs := by
  induction hR generalizing cs with
  | nil =>
    cases hS
    exact .nil
  | cons hab _ ih =>
    cases hS with
    | cons hbc hrest => exact .cons ⟨_, hab, hbc⟩ (ih hrest)

/-- Conditions that are retained without warnings keep their tree and the tests on it; only the
columns are those of known entities. -/
theorem retainKnown_quiet (known : Known) (e : Condition)
    (hquiet : (retainKnown known e).warnings = []) :
    ∃ e', (retainKnown known e).value = some e' ∧
      List.Forall₂ (fun leaf leaf' => known.column? leaf.1 = some leaf'.1 ∧ leaf'.2 = leaf.2)
        e.tests e'.tests ∧
      ∀ (v : Nat → Kleene) (n : Nat), e'.valueAt v n = e.valueAt v n := by
  induction e with
  | test column test =>
    rw [retainKnown] at hquiet ⊢
    cases hcolumn : known.column? column with
    | none =>
      -- only a qualified column can be unknown, and it is warned of
      rw [hcolumn] at hquiet
      obtain ⟨q, name⟩ := column
      cases q with
      | none => cases hcolumn
      | some q => cases hquiet
    | some c => exact ⟨.test c test, rfl, .cons ⟨hcolumn, rfl⟩ .nil, fun v n => rfl⟩
  | not inner ih =>
    rw [retainKnown] at hquiet ⊢
    obtain ⟨inner', hvalue, hleaves, hsame⟩ := ih hquiet
    rw [hvalue]
    refine ⟨.not inner', rfl, hleaves, ?_⟩
    intro v n
    rw [Condition.valueAt, Condition.valueAt, hsame]
  | binary op left right ihleft ihright =>
    simp only [retainKnown, List.append_eq_nil_iff] at hquiet ⊢
    obtain ⟨left', hleft, hleaves, hsame⟩ := ihleft hquiet.1
    obtain ⟨right', hright, hleaves', hsame'⟩ := ihright hquiet.2
    rw [hleft, hright]
    refine ⟨.binary op left' right', rfl, List.rel_append hleaves hleaves', ?_⟩
    intro v n
    rw [Condition.valueAt, Condition.valueAt, hsame, hsame', hleaves.length_eq]

/-- The conditions that the filters among quiet elements give. -/
theorem conditions_of_quiet {ps : List (Owner × Element)}
    (hquiet : ∀ p ∈ ps, warningsOf p.1 p.2 = []) :
    List.Forall₂ (fun p leaf => States p.1.qualifier p.2 leaf)
        ((ps.filter fun p => p.2.name = "filter").flatMap fun p =>
          (conditionsOf p.2).map fun e => (p.1, e))
        ((ps.filterMap fun p => conditionOf? p.1 p.2).flatMap Condition.tests) ∧
      (∀ (v : Nat → Kleene) (n : Nat),
        Condition.valueAll v .and n (ps.filterMap fun p => conditionOf? p.1 p.2) =
          valueAmong v .and n ((ps.filter fun p => p.2.name = "filter").map Prod.snd)) ∧
      ((ps.filterMap fun p => conditionOf? p.1 p.2) = [] ↔
        (ps.filter fun p => p.2.name = "filter") = []) := by
  induction ps with
  | nil => exact ⟨.nil, fun v n => by simp [Condition.valueAll, valueAmong], by simp⟩
  | cons p ps ih =>
    obtain ⟨hleaves, hvalue, hempty⟩ := ih fun p' hp' => hquiet p' (List.mem_cons_of_mem p hp')
    by_cases hname : p.2.name = "filter"
    · -- a filter gives one condition; without it there would be a warning
      have hread : (readFilter p.1.qualifier p.2).warnings = [] := by
        have hp := hquiet p List.mem_cons_self
        simp only [warningsOf, hname] at hp
        simpa using (List.append_eq_nil_iff.1 hp).2
      obtain ⟨c, hc, hcondition⟩ := readFilter_quiet p.1.qualifier p.2 hname hread
      have hgives : conditionOf? p.1 p.2 = some c := by rw [conditionOf?, if_pos hname, hc]
      rw [List.filterMap_cons_some (f := fun p : Owner × Element => conditionOf? p.1 p.2) hgives,
        List.filter_cons_of_pos (by simpa using hname)]
      refine ⟨?_, ?_, by simp⟩
      · rw [List.flatMap_cons, List.flatMap_cons]
        refine List.rel_append ?_ hleaves
        exact List.forall₂_map_left_iff.2 hcondition.leaves
      · intro v n
        rw [Condition.valueAll, List.map_cons, valueAmong, if_pos (.inr hname), hcondition.value,
          hvalue, hcondition.leaves.length_eq]
    · have hgives : conditionOf? p.1 p.2 = none := by rw [conditionOf?, if_neg hname]
      rw [List.filterMap_cons_none (f := fun p : Owner × Element => conditionOf? p.1 p.2) hgives,
        List.filter_cons_of_neg (by simpa using hname)]
      exact ⟨hleaves, hvalue, hempty⟩

/-- What a leaf of the condition of a statement is to the condition element in the same place: the
test that the element states, on the column of the entity that is meant. That is the root or the
entity of a link. -/
def LeafOf (entity : Element) (p : Owner × Element) (leaf : ColumnRef × Test) : Prop :=
  ∃ column, States p.1.qualifier p.2 (column, leaf.2) ∧
    leaf.1 = ⟨meantOwner entity column.qualifier, column.name⟩ ∧
    ∀ q, leaf.1.qualifier = some q → q ∈ linkQualifiers entity

theorem ReadQuietly.condition_spec {entity : Element} {s : Statement} (h : ReadQuietly entity s) :
    (s.condition = none ↔ filtersOf entity = []) ∧
      ∀ e, s.condition = some e →
        List.Forall₂ (LeafOf entity) (conditionElements entity) e.tests ∧
        ∀ v : Nat → Kleene,
          e.valueAt v 0 = valueAmong v .and 0 ((filtersOf entity).map Prod.snd) := by
  obtain ⟨hleaves, hvalue, hempty⟩ := conditions_of_quiet h.quiet
  have hcondition := h.condition_eq
  rw [filtersOf, ← hempty]
  cases hchain : Condition.chain? .and
      ((entityContents entity).filterMap fun p => conditionOf? p.1 p.2) with
  | none =>
    rw [hchain] at hcondition
    have hnone : s.condition = none := (congrArg Reading.value hcondition).symm
    rw [hnone]
    refine ⟨iff_of_true rfl ?_, fun e he => by cases he⟩
    generalize (entityContents entity).filterMap _ = conditions at hchain
    cases conditions with
    | nil => rfl
    | cons first rest => cases hchain
  | some e =>
    rw [hchain] at hcondition
    obtain ⟨htests, hchained⟩ := Condition.chain?_spec hchain
    obtain ⟨e', he', hkept, hsame⟩ :=
      retainKnown_quiet (knownOf s) e (congrArg Reading.warnings hcondition)
    have hsome : s.condition = some e' := by
      rw [← he']
      exact (congrArg Reading.value hcondition).symm
    rw [hsome]
    refine ⟨iff_of_false (by simp) ?_, ?_⟩
    · intro hnil
      rw [hnil] at hchain
      cases hchain
    · intro e'' heq
      cases heq
      constructor
      · -- an element states a leaf of the chain, and that leaf is kept on its meant column
        rw [← htests] at hleaves
        refine (forall₂_comp hleaves hkept).imp ?_
        rintro p leaf' ⟨leaf, hstates, hcolumn, htest⟩
        obtain ⟨hmeant, hrefers⟩ := h.column?_eq hcolumn
        exact ⟨leaf.1, htest ▸ hstates, hmeant, h.mem_linkQualifiers hrefers⟩
      · intro v
        rw [hsame, hchained, hvalue]

/-- A document that is read without warnings keeps its filters: the tests of the condition are the
condition elements of all filters in document order, and under every valuation of them the
condition has the value of the conjunction of the filters. There is no condition exactly if there
is no filter. -/
theorem condition_of_read {xml : String} {s : Statement} (h : read xml = .ok ⟨s, []⟩) :
    ∃ doc entity, Document.parse xml = .ok doc ∧ doc.root.childrenNamed "entity" = [entity] ∧
      (s.condition = none ↔ filtersOf entity = []) ∧
      ∀ e, s.condition = some e →
        List.Forall₂ (LeafOf entity) (conditionElements entity) e.tests ∧
        ∀ v : Nat → Kleene,
          e.valueAt v 0 = valueAmong v .and 0 ((filtersOf entity).map Prod.snd) := by
  obtain ⟨doc, entity, hdoc, hentity, hread⟩ := readQuietly_of_read h
  exact ⟨doc, entity, hdoc, hentity, hread.condition_spec⟩

/-- A document with a filter on a link that also tests an attribute of the root: a missing value, a
negated pattern and a comparison. -/
def filteredBooks : String :=
  "<fetch><entity name=\"book\"><link-entity name=\"author\" from=\"id\" to=\"pen\">" ++
    "<filter type=\"or\"><condition attribute=\"city\" operator=\"null\"/>" ++
    "<condition entityname=\"Book\" attribute=\"isbn\" operator=\"not-like\" value=\"x\"/>" ++
    "<condition attribute=\"rate\" operator=\"ge\" value=\"4.0625\"/>" ++
    "</filter></link-entity></entity></fetch>"

/-- The condition that the document states. -/
def filteredCondition : Condition :=
  .binary .or
    (.binary .or (.test ⟨some "author", "city"⟩ (.null true))
      (.not (.test ⟨none, "isbn"⟩ (.like "x"))))
    (.test ⟨some "author", "rate"⟩
      (.compare .ge (.number ⟨false, 40625, 4, by decide, by decide, by decide⟩)))

theorem condition_of_filteredBooks :
    read filteredBooks = .ok ⟨⟨[], false, none, [], ⟨"book", none⟩,
        [⟨"author", none, .inner, none, "pen", "id", []⟩], some filteredCondition, [], []⟩, []⟩ ∧
      (∃ doc entity, Document.parse filteredBooks = .ok doc ∧
        doc.root.childrenNamed "entity" = [entity] ∧
        List.Forall₂ (LeafOf entity) (conditionElements entity) filteredCondition.tests) ∧
      ∀ v : Nat → Kleene, filteredCondition.valueAt v 0 = ((v 0).or (v 1).not).or (v 2) := by
  have hread : read filteredBooks = .ok ⟨⟨[], false, none, [], ⟨"book", none⟩,
      [⟨"author", none, .inner, none, "pen", "id", []⟩], some filteredCondition, [], []⟩, []⟩ := by
    decide +kernel
  obtain ⟨doc, entity, hdoc, hentity, -, hcondition⟩ := condition_of_read hread
  obtain ⟨hleaves, -⟩ := hcondition filteredCondition rfl
  exact ⟨hread, ⟨doc, entity, hdoc, hentity, hleaves⟩, fun v => rfl⟩

end Fetch

end FetchQuery
