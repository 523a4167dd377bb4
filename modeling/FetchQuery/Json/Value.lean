/-!
# JSON text

Token lists and conversion results are printed as JSON, on one line or with one
member on each line and two blanks for every level. Fields keep their order.
-/

set_option autoImplicit false

namespace FetchQuery.Json

/-- A JSON value; numbers are natural numbers. -/
inductive Value where
  | null
  | truth (value : Bool)
  | number (value : Nat)
  | text (content : String)
  | array (items : List Value)
  | object (fields : List (String × Value))

/-- A hexadecimal digit in lower case. -/
def hexDigit (n : Nat) : Char :=
  Nat.digitChar (n % 16)

/-- A character within a JSON string. -/
def escapeChar (c : Char) : List Char :=
  match c with
  | '"' => ['\\', '"']
  | '\\' => ['\\', '\\']
  | '\x08' => ['\\', 'b']
  | '\x0c' => ['\\', 'f']
  | '\n' => ['\\', 'n']
  | '\r' => ['\\', 'r']
  | '\t' => ['\\', 't']
  | _ =>
    if c.toNat < 0x20 then
      ['\\', 'u', '0', '0', hexDigit (c.toNat / 16), hexDigit c.toNat]
    else [c]

/-- A text as a JSON string. -/
def quote (s : String) : String :=
  "\"" ++ String.ofList (s.toList.flatMap escapeChar) ++ "\""

/-- How JSON is laid out. -/
inductive Layout where
  | compact | pretty
deriving DecidableEq, Repr

namespace Layout

/-- What stands before a member, or before the closing bracket, at a depth. -/
def lineStart (layout : Layout) (depth : Nat) : String :=
  match layout with
  | .compact => ""
  | .pretty => "\n" ++ String.ofList (List.replicate (2 * depth) ' ')

/-- What stands between the name of a field and its value. -/
def colon : Layout → String
  | .compact => ":"
  | .pretty => ": "

end Layout

namespace Value

mutual

/-- The text of a value at a depth. -/
def render (layout : Layout) (depth : Nat) : Value → String
  | .null => "null"
  | .truth true => "true"
  | .truth false => "false"
  | .number n => Nat.repr n
  | .text s => quote s
  | .array [] => "[]"
  | .array (item :: items) =>
    "[" ++ layout.lineStart (depth + 1) ++ render layout (depth + 1) item ++
      renderItems layout (depth + 1) items ++ layout.lineStart depth ++ "]"
  | .object [] => "\x7b\x7d"
  | .object (field :: fields) =>
    "\x7b" ++ layout.lineStart (depth + 1) ++ renderField layout (depth + 1) field ++
      renderFields layout (depth + 1) fields ++ layout.lineStart depth ++ "\x7d"

/-- The text of the items behind the first. -/
def renderItems (layout : Layout) (depth : Nat) : List Value → String
  | [] => ""
  | item :: items =>
    "," ++ layout.lineStart depth ++ render layout depth item ++ renderItems layout depth items

/-- The text of a field. -/
def renderField (layout : Layout) (depth : Nat) : String × Value → String
  | (name, value) => quote name ++ layout.colon ++ render layout depth value

/-- The text of the fields behind the first. -/
def renderFields (layout : Layout) (depth : Nat) : List (String × Value) → String
  | [] => ""
  | field :: fields =>
    "," ++ layout.lineStart depth ++ renderField layout depth field ++
      renderFields layout depth fields

end

end Value

end FetchQuery.Json
