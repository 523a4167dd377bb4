import FetchQuery.Fetch.Filter
import Mathlib.Data.List.Forall2

/-!
# The shape of lowered conditions

Lowering pushes negations down to the tests and merges groups with one connective, so a lowered
condition is flat (`Filter.Flat`): every group has two members or more, and none of them is a group
with the same connective. A chain may be interrupted by double negations or by negated groups with
the dual connective; lowering merges bottom-up, when the connectives of both sides are final, so
that such a chain is one group as well.

The single conditions of the filter are the tests of the condition in their order
(`singles_lower`). Each has the column and the value texts of its test, and the operator of the
test or the opposite one, depending on how many negations stand around the test
(`flat_lower_carries`). Operators and their opposites are told by name, as FetchXML spells them.
-/

set_option autoImplicit false

namespace FetchQuery

/-! ## The tests of a condition -/

/-- A test with its column and the number of negations around it. -/
structure Leaf where
  column : ColumnRef
  test : Test
  negations : Nat

/-- The tests of a condition from left to right, if `around` negations stand around it. -/
def Condition.leaves (around : Nat) : Condition → List Leaf
  | .test column t => [⟨column, t, around⟩]
  | .binary _ left right => leaves around left ++ leaves around right
  | .not inner => leaves (around + 1) inner

theorem Condition.map_leaves (e : Condition) (around : Nat) :
    (e.leaves around).map (fun l => (l.column, l.test)) = e.tests := by
  induction e generalizing around with
  | test column t => rfl
  | binary op left right ihl ihr => rw [leaves, List.map_append, ihl, ihr, tests]
  | not inner ih => exact ih (around + 1)

/-- The name of the operator for a test. -/
def Test.operatorName : Test → String
  | .compare .eq _ => "eq"
  | .compare .ne _ => "ne"
  | .compare .lt _ => "lt"
  | .compare .le _ => "le"
  | .compare .gt _ => "gt"
  | .compare .ge _ => "ge"
  | .null true => "null"
  | .null false => "not-null"
  | .among _ => "in"
  | .between _ _ => "between"
  | .like _ => "like"

/-- The texts that a test compares with. -/
def Test.texts : Test → List String
  | .compare _ value => [value.fetchText]
  | .null _ => []
  | .among values => values.map Literal.fetchText
  | .between low high => [low.fetchText, high.fetchText]
  | .like pattern => [pattern]

namespace Fetch

/-- The names of operators with opposite meanings. -/
def oppositeNames : List (String × String) :=
  [("eq", "ne"), ("lt", "ge"), ("gt", "le"), ("null", "not-null"), ("in", "not-in"),
   ("between", "not-between"), ("like", "not-like")]

/-- Whether two operators, given by name, have opposite meanings. -/
def Opposite (a b : String) : Prop :=
  (a, b) ∈ oppositeNames ∨ (b, a) ∈ oppositeNames

instance (a b : String) : Decidable (Opposite a b) :=
  inferInstanceAs (Decidable (_ ∨ _))

/-- The texts of the values of a single condition. -/
def FilterValues.texts : FilterValues → List String
  | .none => []
  | .single value => [value]
  | .list values => values

/-- A single condition of a filter. -/
structure Single where
  column : ColumnRef
  operator : FilterOperator
  values : FilterValues

/-- A single condition that carries a test, with the opposite operator if the test is under an odd
number of negations. -/
structure Carries (l : Leaf) (single : Single) : Prop where
  column_eq : single.column = l.column
  texts_eq : single.values.texts = l.test.texts
  operator_eq : l.negations % 2 = 0 → single.operator.name = l.test.operatorName
  operator_opposite : l.negations % 2 = 1 → Opposite single.operator.name l.test.operatorName

/-- The single condition that a test becomes. -/
def Single.ofLeaf (l : Leaf) : Single :=
  ⟨l.column,
    if l.negations % 2 == 1 then (operatorOf l.test).complement else operatorOf l.test,
    valuesOf l.test⟩

theorem texts_valuesOf (t : Test) : (valuesOf t).texts = t.texts := by
  cases t <;> rfl

theorem name_operatorOf (test : Test) : (operatorOf test).name = test.operatorName := by
  cases test with
  | compare op value => cases op <;> rfl
  | null expected => cases expected <;> rfl
  | _ => rfl

theorem opposite_complement (test : Test) :
    Opposite (operatorOf test).complement.name test.operatorName := by
  cases test with
  | compare op value =>
    cases op <;> simp [Opposite, oppositeNames, operatorOf, FilterOperator.complement,
      FilterOperator.name, Comparison.negate, Comparison.fetch, Test.operatorName]
  | null expected =>
    cases expected <;> simp [Opposite, oppositeNames, operatorOf, FilterOperator.complement,
      FilterOperator.name, Test.operatorName]
  | _ => exact .inr (by simp [oppositeNames, operatorOf, FilterOperator.complement,
      FilterOperator.name, Test.operatorName])

theorem carries_ofLeaf (l : Leaf) : Carries l (Single.ofLeaf l) := by
  obtain ⟨column, test, negations⟩ := l
  refine ⟨rfl, texts_valuesOf test, fun heven => ?_, fun hodd => ?_⟩
  · simp only [Single.ofLeaf, heven]
    exact name_operatorOf test
  · simp only [Single.ofLeaf, hodd]
    exact opposite_complement test

namespace Filter

/-! ## Single conditions -/

mutual

/-- The single conditions of a filter from left to right. -/
def singles : Filter → List Single
  | .condition column operator values => [⟨column, operator, values⟩]
  | .group _ children => singlesAll children

/-- The single conditions of the filters in a group. -/
def singlesAll : List Filter → List Single
  | [] => []
  | f :: rest => singles f ++ singlesAll rest

end

theorem singlesAll_append (xs ys : List Filter) :
    singlesAll (xs ++ ys) = singlesAll xs ++ singlesAll ys := by
  induction xs with
  | nil => rfl
  | cons f xs ih => rw [List.cons_append, singlesAll, singlesAll, ih, List.append_assoc]

/-- Merging a group keeps its single conditions. -/
theorem singlesAll_operands (op : Connective) (f : Filter) :
    singlesAll (operands op f) = singles f := by
  cases f with
  | condition column operator values => rfl
  | group inner children =>
    rw [operands]
    split
    · rfl
    · rw [singlesAll, singlesAll, List.append_nil]

/-- The single conditions of a lowered condition are its tests, in their order. The polarity with
which a condition is lowered is the parity of the negations around it. -/
theorem singles_lower (e : Condition) (around : Nat) :
    (lower e (around % 2 == 1)).singles = (e.leaves around).map Single.ofLeaf := by
  induction e generalizing around with
  | test column test => rfl
  | binary op left right ihl ihr =>
    rw [lower, singles, singlesAll_append, singlesAll_operands, singlesAll_operands, ihl, ihr,
      Condition.leaves, List.map_append]
  | not inner ih =>
    have hparity : (!(around % 2 == 1)) = ((around + 1) % 2 == 1) := by
      rcases Nat.mod_two_eq_zero_or_one around with h | h <;> simp [Nat.add_mod, h]
    rw [lower, hparity, ih, Condition.leaves]

/-- The polarity counts as a negation around the whole condition. -/
theorem singles_lower_toNat (e : Condition) (negated : Bool) :
    (lower e negated).singles = (e.leaves negated.toNat).map Single.ofLeaf := by
  have hpolarity : (negated.toNat % 2 == 1) = negated := by
    cases negated <;> rfl
  rw [← singles_lower, hpolarity]

/-! ## Flat filters -/

/-- Filters whose groups have two members or more, none of which is a group with the same
connective. -/
inductive Flat : Filter → Prop where
  | condition (column : ColumnRef) (operator : FilterOperator) (values : FilterValues) :
    Flat (.condition column operator values)
  | group {op : Connective} {children : List Filter} (hlength : 2 ≤ children.length)
    (hchildren : ∀ f ∈ children, Flat f) (hinner : ∀ nested, .group op nested ∉ children) :
    Flat (.group op children)

theorem operands_group_self (op : Connective) (children : List Filter) :
    operands op (.group op children) = children :=
  if_pos rfl

/-- A filter that is no group with the connective is an operand as a whole. -/
theorem operands_eq_self {op : Connective} {f : Filter} (h : ∀ nested, f ≠ .group op nested) :
    operands op f = [f] := by
  cases f with
  | condition column operator values => rfl
  | group inner children =>
    refine if_neg ?_
    rintro rfl
    exact h children rfl

/-- What a flat filter contributes to a group: at least one operand, and flat ones that cannot be
merged further. -/
theorem Flat.operands {f : Filter} (hf : f.Flat) (op : Connective) :
    operands op f ≠ [] ∧ (∀ g ∈ operands op f, g.Flat) ∧
      ∀ nested, .group op nested ∉ operands op f := by
  by_cases hgroup : ∃ nested, f = .group op nested
  · -- the members of the group take its place
    obtain ⟨children, rfl⟩ := hgroup
    rw [operands_group_self]
    cases hf with
    | group hlength hchildren hinner =>
      refine ⟨?_, hchildren, hinner⟩
      rintro rfl
      simp at hlength
  · have hne : ∀ nested, f ≠ .group op nested := fun nested h => hgroup ⟨nested, h⟩
    rw [operands_eq_self hne]
    refine ⟨List.cons_ne_nil _ _, by simpa using hf, fun nested hmem => ?_⟩
    exact hne nested (List.mem_singleton.1 hmem).symm

/-- Two flat filters are joined into a flat group. -/
theorem flat_join {f g : Filter} (hf : f.Flat) (hg : g.Flat) (op : Connective) :
    Flat (.group op (operands op f ++ operands op g)) := by
  obtain ⟨hfne, hfflat, hfinner⟩ := hf.operands op
  obtain ⟨hgne, hgflat, hginner⟩ := hg.operands op
  refine .group ?_ ?_ ?_
  · have hflength := List.length_pos_iff.2 hfne
    have hglength := List.length_pos_iff.2 hgne
    rw [List.length_append]
    omega
  · intro member hmember
    rcases List.mem_append.1 hmember with h | h
    · exact hfflat member h
    · exact hgflat member h
  · intro nested hmember
    rcases List.mem_append.1 hmember with h | h
    · exact hfinner nested h
    · exact hginner nested h

/-- Lowering gives flat filters. -/
theorem flat_lower (e : Condition) (negated : Bool) : (lower e negated).Flat := by
  induction e generalizing negated with
  | test column test => exact .condition ..
  | binary op left right ihl ihr => exact flat_join (ihl negated) (ihr negated) _
  | not inner ih => exact ih (!negated)

/-- Lowered conditions are in normal form. Every group has two members or more, none of which is a
group with the same connective. The single conditions are the tests of the condition in their
order, with their columns and value texts, and with their operators or, under an odd number of
negations, the opposite ones; the polarity counts as a negation around the whole. -/
theorem flat_lower_carries (e : Condition) (negated : Bool) :
    (lower e negated).Flat ∧
      List.Forall₂ Carries (e.leaves negated.toNat) (lower e negated).singles := by
  refine ⟨flat_lower e negated, ?_⟩
  rw [singles_lower_toNat, List.forall₂_map_right_iff, List.forall₂_same]
  exact fun l _ => carries_ofLeaf l

end Filter

end Fetch

end FetchQuery
