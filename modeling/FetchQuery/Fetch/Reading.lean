import FetchQuery.Statement
import FetchQuery.Xml.Document

/-!
# Warnings, errors and readings

Reading a document goes on past what has no counterpart in a statement: such a part
is left out or approximated, and a warning says so. A `Reading` pairs what was
understood with the warnings, in the order in which they were met. Only defects of the
structure keep a document from being read as a query.
-/

set_option autoImplicit false

namespace FetchQuery.Fetch

/-! ## Warnings -/

/-- What a reference to an unknown entity was part of. -/
inductive Referrer where
  | condition | order
deriving DecidableEq, Repr

/-- What was left out or approximated. -/
inductive Warning where
  | badTop (text : String)
  | countAsTop (text : String) (n : UInt64)
  | countDropped (text : String)
  | pageDropped (text : String)
  | furtherEntities
  | unknownElement (name : String)
  | unknownFilterElement (name : String)
  | unnamedAttribute
  | dateGrouping (kind name : String)
  | unsupportedAggregate (function name : String)
  | unlabelledAggregate (name label : String)
  | orderWithoutKey
  | filterInOuterJoin (qualifier : String)
  | unknownFilterType (text : String)
  | emptyFilter
  | conditionWithoutAttribute
  | conditionWithoutOperator (name : String)
  | conditionWithoutValue (operator name : String)
  | listWithoutValues (name : String)
  | rangeWithoutBounds (name : String) (found : Nat)
  | unsupportedOperator (operator name : String)
  | unknownLinkType (text entity : String)
  | repeatedQualifier (qualifier : String)
  | unknownEntity (referrer : Referrer) (name qualifier : String)
  | strayItem (item : String)
deriving DecidableEq, Repr

/-- The text of a warning. -/
def Warning.message : Warning → String
  | .badTop text => "Invalid top value '" ++ text ++ "' ignored"
  | .countAsTop text n =>
    "Paging attribute count=\"" ++ text ++ "\" approximated as TOP " ++ rowCountText n
  | .countDropped text => "Paging attribute count=\"" ++ text ++ "\" dropped"
  | .pageDropped text =>
    "Paging attribute page=\"" ++ text ++ "\" dropped; SQL returns the first page"
  | .furtherEntities =>
    "Only the first <entity> is translated; further <entity> elements are ignored"
  | .unknownElement name => "Unknown element <" ++ name ++ "> ignored"
  | .unknownFilterElement name => "Unknown element <" ++ name ++ "> inside <filter> ignored"
  | .unnamedAttribute => "<attribute> without a name ignored"
  | .dateGrouping kind name =>
    "dategrouping=\"" ++ kind ++ "\" on '" ++ name ++
      "' is not supported; grouping by the raw value"
  | .unsupportedAggregate function name =>
    "Unsupported aggregate '" ++ function ++ "' on '" ++ name ++ "' omitted"
  | .unlabelledAggregate name label =>
    "Aggregate attribute '" ++ name ++ "' has no alias; using '" ++ label ++ "'"
  | .orderWithoutKey => "<order> without attribute or alias ignored"
  | .filterInOuterJoin qualifier =>
    "Filter inside outer link-entity '" ++ qualifier ++
      "' merged into WHERE; rows without a match are now excluded"
  | .unknownFilterType text => "Unknown filter type '" ++ text ++ "' treated as 'and'"
  | .emptyFilter => "Empty <filter> ignored"
  | .conditionWithoutAttribute => "<condition> without an attribute ignored"
  | .conditionWithoutOperator name => "<condition> on '" ++ name ++ "' has no operator; omitted"
  | .conditionWithoutValue operator name =>
    "Condition '" ++ operator ++ "' on '" ++ name ++ "' has no value; omitted"
  | .listWithoutValues name => "Condition 'in' on '" ++ name ++ "' has no values; omitted"
  | .rangeWithoutBounds name found =>
    "Condition 'between' on '" ++ name ++ "' needs exactly two values, found " ++
      Nat.repr found ++ "; omitted"
  | .unsupportedOperator operator name =>
    "Unsupported condition operator '" ++ operator ++ "' on '" ++ name ++ "' omitted"
  | .unknownLinkType text entity =>
    "link-type '" ++ text ++ "' on '" ++ entity ++ "' approximated as an inner join"
  | .repeatedQualifier qualifier =>
    "Entity name '" ++ qualifier ++
      "' is used more than once; give each link-entity a distinct alias"
  | .unknownEntity referrer name qualifier =>
    (match referrer with
      | .condition => "Condition"
      | .order => "Order") ++
      " on '" ++ name ++ "' refers to unknown entity '" ++ qualifier ++ "'; omitted"
  | .strayItem item =>
    "Attribute '" ++ item ++ "' is neither aggregated nor grouped in an aggregate query"

/-! ## Readings -/

/-- What is read from a part of a document, with the warnings met in it. -/
structure Reading (α : Type) where
  value : α
  warnings : List Warning

/-- A reading that gives a value without warnings, or one warning and no value. -/
def Reading.ofExcept {α : Type} : Except Warning α → Reading (Option α)
  | .ok a => ⟨some a, []⟩
  | .error warning => ⟨none, [warning]⟩

/-! ## Errors -/

/-- Why a document is not a query. -/
inductive ReadError where
  | document (error : Xml.DocumentError)
  | unexpectedRoot (name : String)
  | noEntity
  | noAttribute (element name : String)
deriving DecidableEq, Repr

/-- The text that reports a read error. -/
def ReadError.message : ReadError → String
  | .document error => error.message
  | .unexpectedRoot name => "Expected <fetch> as the root element, found <" ++ name ++ ">"
  | .noEntity => "FetchXML has no <entity> element"
  | .noAttribute element name =>
    "<" ++ element ++ "> is missing the required '" ++ name ++ "' attribute"

end FetchQuery.Fetch
