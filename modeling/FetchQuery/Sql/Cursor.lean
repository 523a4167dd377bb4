import FetchQuery.SyntaxError
import FetchQuery.Token.Scan

/-!
# Reading along a token list

A cursor stands on a token that is neither comment nor fault, and collects the
comments it passes. A reading step either succeeds or fails, and in both cases the
cursor stays where the step left it: a second reading may go on from there.

A fault token stops a step and is passed by it, while the cursor keeps standing on
the token before the fault. At the end of the input the cursor stays.
-/

set_option autoImplicit false

namespace FetchQuery.Sql

/-- A place in a token list: the token to be read next, the tokens behind it, and
the comments met so far. -/
structure Cursor where
  current : Token
  ahead : List Token
  comments : List String
deriving DecidableEq, Repr

/-- A reading step with a result of type `α`. -/
abbrev Parser (α : Type) : Type :=
  EStateM SyntaxError Cursor α

namespace Cursor

/-- Moves from the token `current` over the tokens that follow it to the next one
that is no comment, collecting the comments on the way. -/
def moveOn (current : Token) :
    List String → List Token → EStateM.Result SyntaxError Cursor Unit
  | comments, [] => .ok () ⟨current, [], comments⟩
  | comments, t :: rest =>
    match t.kind with
    | .comment body => moveOn current (comments ++ [body]) rest
    | .fault cause => .error ⟨.scan cause, t.position⟩ ⟨current, rest, comments⟩
    | _ => .ok () ⟨t, rest, comments⟩

/-- The cursor on the first token of a list, or the fault in front of it. -/
def ofTokens (tokens : List Token) : Except SyntaxError Cursor :=
  match moveOn ⟨.endOfInput, "", Position.start⟩ [] tokens with
  | .ok _ cursor => .ok cursor
  | .error e _ => .error e

/-- The cursor on the first token of a source text. -/
def ofSource (source : String) : Except SyntaxError Cursor :=
  ofTokens (tokenize source)

end Cursor

/-- Moves to the next token. -/
def advance : Parser Unit :=
  fun c => Cursor.moveOn c.current c.comments c.ahead

/-- The kind of the current token. -/
def currentKind : Parser TokenKind :=
  fun c => .ok c.current.kind c

/-- The position of the current token. -/
def currentPosition : Parser Position :=
  fun c => .ok c.current.position c

/-- A bound on the number of tokens still to be read. -/
def remaining : Parser Nat :=
  fun c => .ok c.ahead.length c

/-- Fails at a position. -/
def failAt {α : Type} (fault : SyntaxFault) (position : Position) : Parser α :=
  fun c => .error ⟨fault, position⟩ c

/-- Fails at the current token. -/
def failHere {α : Type} (fault : SyntaxFault) : Parser α :=
  fun c => .error ⟨fault, c.current.position⟩ c

/-- Fails because the current token is not what is expected. -/
def unexpected {α : Type} (what : Expectation) : Parser α :=
  fun c => .error ⟨.expected what c.current.describe, c.current.position⟩ c

/-- The result of a scope operation, its fault reported at a position. -/
def inScope {α : Type} (position : Position) : Except ScopeFault α → Parser α
  | .ok a => pure a
  | .error fault => failAt (.scope fault) position

/-- Whether the current token is of the given kind. -/
def isAt (kind : TokenKind) : Parser Bool :=
  fun c => .ok (c.current.kind == kind) c

/-- Whether the current token is a reserved word. -/
def atKeyword (word : Keyword) : Parser Bool :=
  isAt (.keyword word)

/-- Whether the current token is an identifier. -/
def atIdentifier : Parser Bool := do
  match ← currentKind with
  | .identifier _ => pure true
  | _ => pure false

/-- Passes the current token if it is of the given kind, and tells whether it was. -/
def eat (kind : TokenKind) : Parser Bool := do
  if ← isAt kind then
    advance
    pure true
  else pure false

/-- Passes a reserved word if it comes next. -/
def eatKeyword (word : Keyword) : Parser Bool :=
  eat (.keyword word)

/-- Passes a symbol if it comes next. -/
def eatSymbol (sign : Symbol) : Parser Bool :=
  eat (.symbol sign)

/-- Passes a token of the given kind, or fails. -/
def expect (kind : TokenKind) (what : Expectation) : Parser Unit := do
  if ← isAt kind then advance else unexpected what

/-- Passes a reserved word, or fails. -/
def expectKeyword (word : Keyword) (what : Expectation) : Parser Unit :=
  expect (.keyword word) what

/-- Passes a symbol, or fails. -/
def expectSymbol (sign : Symbol) (what : Expectation) : Parser Unit :=
  expect (.symbol sign) what

/-- Passes the current token after emptying it: should the step to the next token
fail, an end of input stands in its place. -/
def consume : Parser Unit := fun c =>
  advance { c with current := { c.current with kind := .endOfInput } }

/-- Reads an identifier. -/
def identifier (what : Expectation) : Parser String := do
  match ← currentKind with
  | .identifier name =>
    consume
    pure name
  | _ => unexpected what

/-- Reads further items, each after a comma, at most `n` of them. -/
def commaItems {α : Type} (item : Parser α) : Nat → Parser (List α)
  | 0 => pure []
  | n + 1 => do
    if ← eatSymbol .comma then
      let first ← item
      let rest ← commaItems item n
      pure (first :: rest)
    else pure []

/-- Reads one or more items separated by commas. -/
def commaList {α : Type} (item : Parser α) : Parser (List α) := do
  let first ← item
  let n ← remaining
  let rest ← commaItems item n
  pure (first :: rest)

end FetchQuery.Sql
