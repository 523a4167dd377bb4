import FetchQuery.Fetch.Filter

/-!
# The meaning of lowered conditions

Conditions are read in the strong three-valued logic of Kleene: a test on a missing
value is neither true nor false. A valuation gives every single FetchXML condition a
truth value; from it a condition tree and a filter tree get theirs, the first by
`NOT`, `AND` and `OR`, the second by groups of any length.

Lowering keeps the meaning (`value_lower`): under every valuation that treats the
operators `eq` and `ne`, `lt` and `ge`, `gt` and `le`, and each operator with its `not-`
form as complements, the filter of a condition has the value of the condition, and the
filter of its negation has the opposite value.
-/

set_option autoImplicit false

namespace FetchQuery

/-- A truth value of the strong three-valued logic. -/
inductive Kleene where
  | no | unknown | yes
deriving DecidableEq, Repr

namespace Kleene

/-- Negation: an unknown value stays unknown. -/
def not : Kleene → Kleene
  | .no => .yes
  | .unknown => .unknown
  | .yes => .no

/-- Conjunction: false as soon as one side is. -/
def and : Kleene → Kleene → Kleene
  | .no, _ => .no
  | _, .no => .no
  | .yes, .yes => .yes
  | _, _ => .unknown

/-- Disjunction: true as soon as one side is. -/
def or : Kleene → Kleene → Kleene
  | .yes, _ => .yes
  | _, .yes => .yes
  | .no, .no => .no
  | _, _ => .unknown

@[simp] theorem not_not (a : Kleene) : a.not.not = a := by
  cases a <;> rfl

/-- Being complements goes both ways. -/
theorem eq_not_of_eq_not {a b : Kleene} (h : a = b.not) : b = a.not := by
  rw [h, not_not]

/-- The value of two operands under a connective. -/
def combine : Connective → Kleene → Kleene → Kleene
  | .and => and
  | .or => or

/-- The value of a connective without operands. -/
def unit : Connective → Kleene
  | .and => .yes
  | .or => .no

@[simp] theorem unit_combine (op : Connective) (a : Kleene) : combine op (unit op) a = a := by
  cases op <;> cases a <;> rfl

@[simp] theorem combine_unit (op : Connective) (a : Kleene) : combine op a (unit op) = a := by
  cases op <;> cases a <;> rfl

theorem combine_assoc (op : Connective) (a b c : Kleene) :
    combine op (combine op a b) c = combine op a (combine op b c) := by
  cases op <;> cases a <;> cases b <;> cases c <;> rfl

/-- De Morgan's laws for both connectives. -/
theorem not_combine (op : Connective) (a b : Kleene) :
    (combine op a b).not = combine op.dual a.not b.not := by
  cases op <;> cases a <;> cases b <;> rfl

/-- The value, or its negation when `negated` is set. -/
def notIf (negated : Bool) (a : Kleene) : Kleene :=
  if negated then a.not else a

@[simp] theorem notIf_true (a : Kleene) : notIf true a = a.not := rfl

@[simp] theorem notIf_false (a : Kleene) : notIf false a = a := rfl

theorem notIf_not (negated : Bool) (a : Kleene) : notIf (!negated) a = notIf negated a.not := by
  cases negated with
  | false => rfl
  | true => exact (not_not a).symm

/-- Negating the operands of a connective turns it into the dual one. -/
theorem notIf_combine (negated : Bool) (op : Connective) (a b : Kleene) :
    notIf negated (combine op a b) =
      combine (if negated then op.dual else op) (notIf negated a) (notIf negated b) := by
  cases negated with
  | false => rfl
  | true => exact not_combine op a b

end Kleene

namespace Fetch

/-- A truth value for every single FetchXML condition. -/
abbrev Valuation : Type :=
  ColumnRef → FilterOperator → FilterValues → Kleene

/-- A valuation under which each operator and its opposite are complements on the same
column and the same values. -/
structure Valuation.Complementary (v : Valuation) : Prop where
  eq_ne : ∀ c values, v c (.compare .ne) values = (v c (.compare .eq) values).not
  lt_ge : ∀ c values, v c (.compare .ge) values = (v c (.compare .lt) values).not
  gt_le : ∀ c values, v c (.compare .le) values = (v c (.compare .gt) values).not
  null_notNull : ∀ c values, v c .notNull values = (v c .null values).not
  among_notAmong : ∀ c values, v c .notAmong values = (v c .among values).not
  between_notBetween : ∀ c values, v c .notBetween values = (v c .between values).not
  like_notLike : ∀ c values, v c .notLike values = (v c .like values).not

/-- The value of a test of a column: that of the condition which states it. -/
def testValue (v : Valuation) (column : ColumnRef) : Test → Kleene
  | .compare op value => v column (.compare op) (.single value.fetchText)
  | .null true => v column .null .none
  | .null false => v column .notNull .none
  | .among values => v column .among (.list (values.map Literal.fetchText))
  | .between low high => v column .between (.list [low.fetchText, high.fetchText])
  | .like pattern => v column .like (.single pattern)

/-- The value of a condition tree. -/
def conditionValue (v : Valuation) : Condition → Kleene
  | .test column test => testValue v column test
  | .binary .and left right => (conditionValue v left).and (conditionValue v right)
  | .binary .or left right => (conditionValue v left).or (conditionValue v right)
  | .not inner => (conditionValue v inner).not

namespace Filter

mutual

/-- The value of a filter tree. -/
def value (v : Valuation) : Filter → Kleene
  | .condition column operator values => v column operator values
  | .group op children => valueAll v op children

/-- The value of the filters in a group under its connective. -/
def valueAll (v : Valuation) (op : Connective) : List Filter → Kleene
  | [] => Kleene.unit op
  | f :: rest => Kleene.combine op (value v f) (valueAll v op rest)

end

theorem valueAll_append (v : Valuation) (op : Connective) (xs ys : List Filter) :
    valueAll v op (xs ++ ys) = Kleene.combine op (valueAll v op xs) (valueAll v op ys) := by
  induction xs with
  | nil => simp [valueAll]
  | cons f xs ih =>
    rw [List.cons_append, valueAll, valueAll, ih, Kleene.combine_assoc]

/-- Taking over the operands of a filter into a group counts as the filter itself: the
children of a group are taken over only under their own connective. -/
theorem valueAll_operands (v : Valuation) (op : Connective) (f : Filter) :
    valueAll v op (operands op f) = value v f := by
  cases f with
  | condition column operator values => simp [operands, valueAll, value]
  | group inner children =>
    by_cases h : inner = op
    · -- the children stand in for their group, under the same connective
      rw [operands, if_pos h, value, h]
    · simp [operands, if_neg h, valueAll]

end Filter

theorem conditionValue_binary (v : Valuation) (op : Connective) (left right : Condition) :
    conditionValue v (.binary op left right) =
      Kleene.combine op (conditionValue v left) (conditionValue v right) := by
  cases op <;> rfl

/-- An operator and its complement have opposite values. -/
theorem Valuation.Complementary.complement {v : Valuation} (hv : v.Complementary) (c : ColumnRef)
    (operator : FilterOperator) (values : FilterValues) :
    v c operator.complement values = (v c operator values).not := by
  cases operator with
  | compare op =>
    cases op with
    | eq => exact hv.eq_ne c values
    | ne => exact Kleene.eq_not_of_eq_not (hv.eq_ne c values)
    | lt => exact hv.lt_ge c values
    | le => exact Kleene.eq_not_of_eq_not (hv.gt_le c values)
    | gt => exact hv.gt_le c values
    | ge => exact Kleene.eq_not_of_eq_not (hv.lt_ge c values)
  | null => exact hv.null_notNull c values
  | notNull => exact Kleene.eq_not_of_eq_not (hv.null_notNull c values)
  | among => exact hv.among_notAmong c values
  | notAmong => exact Kleene.eq_not_of_eq_not (hv.among_notAmong c values)
  | between => exact hv.between_notBetween c values
  | notBetween => exact Kleene.eq_not_of_eq_not (hv.between_notBetween c values)
  | like => exact hv.like_notLike c values
  | notLike => exact Kleene.eq_not_of_eq_not (hv.like_notLike c values)

/-- A test is stated by its operator on its values. -/
theorem testValue_eq (v : Valuation) (column : ColumnRef) (test : Test) :
    testValue v column test = v column (operatorOf test) (valuesOf test) := by
  cases test with
  | null expected => cases expected <;> rfl
  | _ => rfl

/-- Lowering keeps the meaning of a condition, and of its negation, under every
valuation whose opposite operators are complements. -/
theorem value_lower (v : Valuation) (hv : v.Complementary) (e : Condition) (negated : Bool) :
    (Filter.lower e negated).value v =
      if negated then (conditionValue v e).not else conditionValue v e := by
  change _ = Kleene.notIf negated (conditionValue v e)
  -- `lower` flattens by the connective it has already dualised, so the induction is over
  -- the tree with the polarity left free
  induction e generalizing negated with
  | test column test =>
    rw [Filter.lower, Filter.value, conditionValue, testValue_eq]
    cases negated with
    | false => rfl
    | true =>
      -- a negated test is stated by the opposite operator
      exact hv.complement column (operatorOf test) (valuesOf test)
  | binary op left right ihl ihr =>
    rw [Filter.lower, Filter.value, Filter.valueAll_append, Filter.valueAll_operands,
      Filter.valueAll_operands, ihl, ihr, conditionValue_binary, Kleene.notIf_combine]
  | not inner ih => rw [Filter.lower, ih, conditionValue, Kleene.notIf_not]

/-- A valuation that takes every operator without `not-`, and `eq`, `lt` and `gt`, for
unknown on the column `gap`, and for true elsewhere. -/
def sampleValuation : Valuation := fun c operator _ =>
  let base : Kleene := if c.name = "gap" then .unknown else .yes
  match operator with
  | .compare .eq | .compare .lt | .compare .gt | .null | .among | .between | .like => base
  | _ => base.not

/-- Under nested negations: `NOT (a <= 1 AND NOT (gap IS NULL OR NOT b IN ('x')))`. -/
theorem value_lower_nested :
    sampleValuation.Complementary ∧
      (Filter.lower
        (.not (.binary .and (.test ⟨none, "a"⟩ (.compare .le (.text "1")))
          (.not (.binary .or (.test ⟨some "q", "gap"⟩ (.null true))
            (.not (.test ⟨none, "b"⟩ (.among [.text "x"])))))))
        true).value sampleValuation = .no := by
  have hv : sampleValuation.Complementary := by
    constructor <;> intro c values <;> by_cases h : c.name = "gap" <;>
      simp [sampleValuation, h, Kleene.not]
  refine ⟨hv, ?_⟩
  rw [value_lower sampleValuation hv]
  decide

end Fetch

end FetchQuery
