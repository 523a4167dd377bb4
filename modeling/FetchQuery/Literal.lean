import FetchQuery.Decimal
import FetchQuery.Text.Doubled

/-!
# Literal values

Literals are typed in SQL and plain text in FetchXML. `ofFetch` chooses the type of
a FetchXML text so that its text is kept: a text becomes a number only when it is
exactly how that number is written.
-/

set_option autoImplicit false

namespace FetchQuery

/-- A literal value of a condition. -/
inductive Literal where
  | text (content : String)
  | number (value : Decimal)
  | truth (value : Bool)
deriving DecidableEq

namespace Literal

/-- The text of a literal in FetchXML. -/
def fetchText : Literal → String
  | .text content => content
  | .number value => value.text
  | .truth true => "true"
  | .truth false => "false"

/-- The text of a literal in SQL. -/
def sql : Literal → String
  | .text content => Text.enclose '\'' '\'' content
  | .number value => value.text
  | .truth true => "TRUE"
  | .truth false => "FALSE"

/-- Whether `cs` is empty or a point followed by at least one digit. -/
def isFraction : List Char → Bool
  | [] => true
  | '.' :: cs => !cs.isEmpty && cs.all Char.isDigit
  | _ => false

/-- Whether `cs` is a number without leading zeros: digits and perhaps a fraction. -/
def isUnsignedNumber (cs : List Char) : Bool :=
  let whole := cs.takeWhile Char.isDigit
  (whole == ['0'] || whole.head?.any (· != '0')) && isFraction (cs.dropWhile Char.isDigit)

/-- Whether `cs` is written like a decimal: a sign only if negative, no leading
zeros, no exponent. -/
def isNumber : List Char → Bool
  | '-' :: cs => isUnsignedNumber cs
  | cs => isUnsignedNumber cs

/-- The number that is written exactly like `s`, if there is one. -/
def exactNumber? (s : String) : Option Decimal :=
  if isNumber s.toList then (Decimal.parse? s).filter fun d => d.text == s else none

/-- The literal for a FetchXML text. -/
def ofFetch (s : String) : Literal :=
  match exactNumber? s with
  | some value => .number value
  | none => if s = "true" then .truth true else if s = "false" then .truth false else .text s

end Literal

end FetchQuery
