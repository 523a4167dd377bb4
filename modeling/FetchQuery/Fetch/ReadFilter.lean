import FetchQuery.Condition
import FetchQuery.Fetch.Reading
import FetchQuery.Xml.Element

/-!
# Reading filters

A condition element is read as a test of a column, or not at all with a warning that
says why. A filter element joins what its children give, from left to right; a filter
whose children give nothing is left out.
-/

set_option autoImplicit false

namespace FetchQuery.Fetch

open Xml

/-- The values of a condition element: its value attribute before its value elements. -/
def conditionValues (e : Element) : List String :=
  (e.attr? "value").toList ++ (e.childrenNamed "value").map Element.text

/-- An operator name without the mark of a negation, and whether it had one. -/
def splitNegation (operator : String) : String × Bool :=
  match operator.toList with
  | 'n' :: 'o' :: 't' :: '-' :: rest => (String.ofList rest, true)
  | _ => (operator, false)

/-- The condition of a test, negated or not. -/
def negatedIf (negated : Bool) (e : Condition) : Condition :=
  if negated then .not e else e

/-- The first value of a condition that needs one. -/
def firstValue (operator name : String) : List String → Except Warning String
  | value :: _ => .ok value
  | [] => .error (.conditionWithoutValue operator name)

/-- The `LIKE` test of a condition whose first value is put into a pattern. -/
def likeTest (operator name : String) (values : List String) (pattern : String → String) :
    Except Warning Test :=
  (firstValue operator name values).map fun value => .like (pattern value)

/-- The list test of a condition. -/
def listTest (name : String) (values : List String) : Except Warning Test :=
  if values.isEmpty then .error (.listWithoutValues name)
  else .ok (.among (values.map Literal.ofFetch))

/-- The range test of a condition. -/
def rangeTest (name : String) : List String → Except Warning Test
  | [low, high] => .ok (.between (Literal.ofFetch low) (Literal.ofFetch high))
  | values => .error (.rangeWithoutBounds name values.length)

/-- The condition that a column must meet for an operator that is no comparison. -/
def readNamedTest (operator : String) (column : ColumnRef) (values : List String) :
    Except Warning Condition :=
  let (positive, negated) := splitNegation operator
  let wrap (test : Except Warning Test) : Except Warning Condition :=
    test.map fun t => negatedIf negated (.test column t)
  match positive with
  | "like" => wrap (likeTest operator column.name values id)
  | "begins-with" => wrap (likeTest operator column.name values (· ++ "%"))
  | "begin-with" => wrap (likeTest operator column.name values (· ++ "%"))
  | "ends-with" => wrap (likeTest operator column.name values ("%" ++ ·))
  | "end-with" => wrap (likeTest operator column.name values ("%" ++ ·))
  | "in" => wrap (listTest column.name values)
  | "between" => wrap (rangeTest column.name values)
  | "null" => .ok (.test column (.null !negated))
  | _ => .error (.unsupportedOperator operator column.name)

/-- The condition that a column must meet for an operator and its values. -/
def readTest (operator : String) (column : ColumnRef) (values : List String) :
    Except Warning Condition :=
  match Comparison.ofFetch? operator with
  | some op =>
    (firstValue operator column.name values).map fun value =>
      .test column (.compare op (Literal.ofFetch value))
  | none => readNamedTest operator column values

/-- The condition that a condition element states. Its column belongs to the entity it
names, or to the one with the qualifier `owner`. -/
def readCondition (owner : Option String) (e : Element) : Except Warning Condition :=
  match e.attr? "attribute", e.attr? "operator" with
  | none, _ => .error .conditionWithoutAttribute
  | some name, none => .error (.conditionWithoutOperator name)
  | some name, some operator =>
    readTest operator ⟨(e.attr? "entityname").or owner, name⟩ (conditionValues e)

/-- The connective of a filter element; an unknown one counts as `and`. -/
def filterConnective (e : Element) : Reading Connective :=
  match e.attr? "type" with
  | none => ⟨.and, []⟩
  | some "and" => ⟨.and, []⟩
  | some "or" => ⟨.or, []⟩
  | some other => ⟨.and, [.unknownFilterType other]⟩

/-- The condition of a filter with the given connective and operands. A filter without
operands gives none. -/
def joinOperands (op : Reading Connective) (operands : Reading (List Condition)) :
    Reading (Option Condition) :=
  match Condition.chain? op.value operands.value with
  | some e => ⟨some e, op.warnings ++ operands.warnings⟩
  | none => ⟨none, op.warnings ++ operands.warnings ++ [.emptyFilter]⟩

mutual

/-- The condition that a filter element states. -/
def readFilter (owner : Option String) : Element → Reading (Option Condition)
  | e@⟨_, _, children, _⟩ => joinOperands (filterConnective e) (readOperands owner children)

/-- The conditions that the children of a filter element state. -/
def readOperands (owner : Option String) : List Element → Reading (List Condition)
  | [] => ⟨[], []⟩
  | child :: rest =>
    let operand :=
      if child.name = "condition" then Reading.ofExcept (readCondition owner child)
      else if child.name = "filter" then readFilter owner child
      else ⟨none, [.unknownFilterElement child.name]⟩
    let operands := readOperands owner rest
    ⟨operand.value.toList ++ operands.value, operand.warnings ++ operands.warnings⟩

end

end FetchQuery.Fetch
