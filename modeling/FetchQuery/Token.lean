import FetchQuery.Position
import FetchQuery.Keyword

/-!
# Tokens

A token is a classified piece of the source together with its own characters and
its position. Pieces that belong to no class become fault tokens, so a token list
can be made of every source.
-/

set_option autoImplicit false

namespace FetchQuery

/-- Operators and punctuation. -/
inductive Symbol where
  | equal | notEqual | less | greater | lessEqual | greaterEqual | star | minus
  | comma | dot | openParen | closeParen | semicolon
deriving DecidableEq, Repr

/-- The name of a symbol in a token listing. -/
def Symbol.label : Symbol → String
  | .equal => "Eq"
  | .notEqual => "NotEq"
  | .less => "Lt"
  | .greater => "Gt"
  | .lessEqual => "LtEq"
  | .greaterEqual => "GtEq"
  | .star => "Star"
  | .minus => "Minus"
  | .comma => "Comma"
  | .dot => "Dot"
  | .openParen => "LParen"
  | .closeParen => "RParen"
  | .semicolon => "Semicolon"

/-- Why a piece of the source is no token of the language. -/
inductive ScanFault where
  | openBlockComment
  | openString
  | openBracket
  | openQuote
  | emptyBrackets
  | emptyQuotes
  | loneExclamation
  | badNumber (text : String)
  | strayCharacter (c : Char)
deriving DecidableEq, Repr

/-- The text that reports a scan fault. -/
def ScanFault.message : ScanFault → String
  | .openBlockComment => "Unterminated block comment"
  | .openString => "Unterminated string literal"
  | .openBracket => "Unterminated bracketed identifier"
  | .openQuote => "Unterminated quoted identifier"
  | .emptyBrackets => "Empty identifier '[]'"
  | .emptyQuotes => "Empty identifier '\"\"'"
  | .loneExclamation => "Unexpected character '!' (did you mean '!=' or '<>'?)"
  | .badNumber text => "Invalid numeric literal '" ++ text ++ "'"
  | .strayCharacter c => "Unexpected character '" ++ c.toString ++ "'"

/-- The class of a token, with what it stands for. Quoting is already undone in
identifiers and strings; numbers are unsigned and kept as written; a comment holds
its trimmed body. -/
inductive TokenKind where
  | keyword (word : Keyword)
  | identifier (name : String)
  | number (text : String)
  | string (content : String)
  | symbol (sign : Symbol)
  | comment (body : String)
  | fault (cause : ScanFault)
  | endOfInput
deriving DecidableEq, Repr

/-- A token with its source characters and its position. -/
structure Token where
  kind : TokenKind
  text : String
  position : Position
deriving DecidableEq, Repr

/-- How an error message names a token. -/
def Token.describe (t : Token) : String :=
  match t.kind with
  | .keyword k => "keyword " ++ k.spelling
  | .identifier name => "identifier '" ++ name ++ "'"
  | .number text => "number " ++ text
  | .string content => "string '" ++ content ++ "'"
  | .comment _ => "comment"
  | .fault cause => cause.message
  | .endOfInput => "end of input"
  | .symbol _ => "'" ++ t.text ++ "'"

end FetchQuery
