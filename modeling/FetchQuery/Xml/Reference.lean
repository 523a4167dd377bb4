/-!
# Character references

Markup characters in text and attribute values are written as references: five named
ones, and numbers for any character. `escape` writes the named references and
`unescape` resolves all of them. Faults name their place by byte counts within the
text at hand.
-/

set_option autoImplicit false

namespace FetchQuery.Xml

/-- The length of a run of characters in bytes of UTF-8. -/
def byteLength (cs : List Char) : Nat :=
  cs.foldl (fun n c => n + c.utf8Size) 0

/-- Why a reference stands for no character. -/
inductive ReferenceFault where
  | unterminated (start stop : Nat)
  | unknownName (start stop : Nat) (name : String)
  | sign
  | noDigits
  | badDigit
  | tooLarge
  | nullCharacter
  | noCharacter (code : Nat)
deriving DecidableEq, Repr

/-- The text that reports a reference fault. -/
def ReferenceFault.message : ReferenceFault → String
  | .unterminated start stop =>
    "Error while escaping character at range " ++ Nat.repr start ++ ".." ++ Nat.repr stop ++
      ": Cannot find ';' after '&'"
  | .unknownName start stop name =>
    "at " ++ Nat.repr start ++ ".." ++ Nat.repr stop ++ ": unrecognized entity `" ++ name ++ "`"
  | .sign => "invalid character reference: unexpected number sign"
  | .noDigits => "invalid character reference: cannot parse integer from empty string"
  | .badDigit => "invalid character reference: invalid digit found in string"
  | .tooLarge => "invalid character reference: number too large to fit in target type"
  | .nullCharacter => "invalid character reference: 0x0 character is not permitted in XML"
  | .noCharacter code =>
    "invalid character reference: `" ++ Nat.repr code ++ "` is not a valid codepoint"

/-- A character as it is written in text and attribute values. -/
def escapeChar (c : Char) : List Char :=
  match c with
  | '<' => ['&', 'l', 't', ';']
  | '>' => ['&', 'g', 't', ';']
  | '&' => ['&', 'a', 'm', 'p', ';']
  | '\'' => ['&', 'a', 'p', 'o', 's', ';']
  | '"' => ['&', 'q', 'u', 'o', 't', ';']
  | _ => [c]

/-- A text with its markup characters written as references. -/
def escape (s : String) : String :=
  String.ofList (s.toList.flatMap escapeChar)

/-- The character of a named reference. -/
def namedChar? (name : String) : Option Char :=
  match name with
  | "lt" => some '<'
  | "gt" => some '>'
  | "amp" => some '&'
  | "apos" => some '\''
  | "quot" => some '"'
  | _ => none

/-- The value of a digit in a base of at most 16. -/
def digitIn? (base : Nat) (c : Char) : Option Nat :=
  let value :=
    if c.isDigit then some (c.toNat - '0'.toNat)
    else if 'a' ≤ c ∧ c ≤ 'f' then some (c.toNat - 'a'.toNat + 10)
    else if 'A' ≤ c ∧ c ≤ 'F' then some (c.toNat - 'A'.toNat + 10)
    else none
  value.filter fun d => d < base

/-- The number below `2 ^ 32` that digits spell, continued from `value`. -/
def readCode (base value : Nat) : List Char → Except ReferenceFault Nat
  | [] => .ok value
  | c :: cs =>
    match digitIn? base c with
    | none => .error .badDigit
    | some d =>
      if value * base + d < UInt32.size then readCode base (value * base + d) cs
      else .error .tooLarge

/-- The number that the digits of a reference spell; a sign is not allowed. -/
def codeOf (base : Nat) (digits : List Char) : Except ReferenceFault Nat :=
  match digits with
  | [] => .error .noDigits
  | c :: _ => if c = '+' ∨ c = '-' then .error .sign else readCode base 0 digits

/-- The character with a code. -/
def charOf (code : Nat) : Except ReferenceFault Char :=
  if code = 0 then .error .nullCharacter
  else if code.isValidChar then .ok (Char.ofNat code)
  else .error (.noCharacter code)

/-- The character of a numeric reference, given what follows its number sign. -/
def numericChar : List Char → Except ReferenceFault Char
  | 'x' :: digits => (codeOf 16 digits).bind charOf
  | digits => (codeOf 10 digits).bind charOf

/-- The character of a reference whose name begins at byte `start`. -/
def referencedChar (start : Nat) (name : List Char) : Except ReferenceFault Char :=
  match name with
  | '#' :: number => numericChar number
  | _ =>
    match namedChar? (String.ofList name) with
    | some c => .ok c
    | none => .error (.unknownName start (start + byteLength name) (String.ofList name))

/-- The characters before the semicolon that ends a reference; another ampersand
must not come first. -/
def referenceName? : List Char → Option (List Char)
  | [] => none
  | c :: cs =>
    if c = ';' then some []
    else if c = '&' then none
    else (referenceName? cs).map (c :: ·)

/-- Resolves the references of the characters that remain from byte `start` on, when the
first `skip` of them belong to a reference already resolved. The whole text has
`total` bytes. -/
def unescapeFrom (total : Nat) : Nat → Nat → List Char → Except ReferenceFault (List Char)
  | _, _, [] => .ok []
  | skip + 1, start, c :: cs => unescapeFrom total skip (start + c.utf8Size) cs
  | 0, start, c :: cs =>
    if c = '&' then
      match referenceName? cs with
      | none => .error (.unterminated start total)
      | some name =>
        match referencedChar (start + 1) name with
        | .error fault => .error fault
        | .ok d => (unescapeFrom total (name.length + 1) (start + 1) cs).map (d :: ·)
    else (unescapeFrom total 0 (start + c.utf8Size) cs).map (c :: ·)

/-- A run of characters with its references resolved. -/
def unescape (cs : List Char) : Except ReferenceFault (List Char) :=
  unescapeFrom (byteLength cs) 0 0 cs

end FetchQuery.Xml
