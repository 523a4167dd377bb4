/-!
# Characters and lines of a text

Blanks are the characters with the property `White_Space`. A character property is kept as an
ascending list of inclusive runs of code points; `inRuns` decides membership and stops at the
first run that begins after the code point asked for, so short questions stay short.

Keywords, qualifiers and flags are compared without regard to the case of the letters `A` to `Z`;
every other character stands only for itself.

A line ends at a line feed; one carriage return directly before it belongs to the line end. A text
that ends in a line feed has no further empty line, and a carriage return anywhere else is an
ordinary character.
-/

set_option autoImplicit false

namespace FetchQuery.Text

/-! ## Blanks -/

/-- Membership of a code point in an ascending list of inclusive runs. -/
def inRuns : List (Nat × Nat) → Nat → Bool
  | [], _ => false
  | (first, last) :: runs, n =>
    if n < first then false else if n ≤ last then true else inRuns runs n

/-- The runs of characters with the property `White_Space`. -/
def blankRuns : List (Nat × Nat) :=
  [(0x9, 0xd), (0x20, 0x20), (0x85, 0x85), (0xa0, 0xa0), (0x1680, 0x1680), (0x2000, 0x200a),
   (0x2028, 0x2029), (0x202f, 0x202f), (0x205f, 0x205f), (0x3000, 0x3000)]

/-- Whether a character has the property `White_Space`. -/
def isBlank (c : Char) : Bool :=
  inRuns blankRuns c.toNat

/-- The characters left when the blanks at both ends are removed. -/
def trimChars (cs : List Char) : List Char :=
  ((cs.dropWhile isBlank).reverse.dropWhile isBlank).reverse

/-- A text without the blanks at its two ends. -/
def trim (s : String) : String :=
  String.ofList (trimChars s.toList)

/-! ## Letter case -/

/-- A text with the letters `A` to `Z` in lower case. -/
def lower (s : String) : String :=
  String.ofList (s.toList.map Char.toLower)

/-- A text with the letters `a` to `z` in upper case. -/
def upper (s : String) : String :=
  String.ofList (s.toList.map Char.toUpper)

/-- Equality of texts up to the case of the basic Latin letters. -/
def sameName (s t : String) : Bool :=
  lower s == lower t

/-! ## Lines -/

/-- The lines of a character list, without their line ends. -/
def lineChars : List Char → List (List Char)
  | [] => []
  | '\n' :: cs => [] :: lineChars cs
  | '\r' :: '\n' :: cs => [] :: lineChars cs
  | c :: cs =>
    match lineChars cs with
    | [] => [[c]]
    | line :: rest => (c :: line) :: rest

/-- The lines of a text, without their line ends. -/
def lines (s : String) : List String :=
  (lineChars s.toList).map String.ofList

end FetchQuery.Text
