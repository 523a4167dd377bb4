/-!
# Positions in a source text

A position counts lines and columns from one, in characters, and the distance
from the start of the source in bytes of UTF-8.
-/

set_option autoImplicit false

namespace FetchQuery

/-- A place in a source text. -/
structure Position where
  line : Nat
  column : Nat
  offset : Nat
deriving DecidableEq, Repr

namespace Position

/-- The position of the first character. -/
def start : Position :=
  ⟨1, 1, 0⟩

/-- The position that follows a character: a line feed opens a new line. -/
def after (p : Position) (c : Char) : Position :=
  if c = '\n' then ⟨p.line + 1, 1, p.offset + c.utf8Size⟩
  else ⟨p.line, p.column + 1, p.offset + c.utf8Size⟩

/-- The position that follows a run of characters. -/
def afterAll (p : Position) (cs : List Char) : Position :=
  cs.foldl after p

end Position

end FetchQuery
