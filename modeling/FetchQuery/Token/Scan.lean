import FetchQuery.Token
import FetchQuery.Text.Basic
import FetchQuery.Text.Numeral
import FetchQuery.Text.Doubled

/-!
# From source text to tokens

`lexeme` reads the one token that begins at a character that is not blank; it
always takes at least that character. `scanFrom` walks the source character by
character, so that positions are counted in one place, and `tokenize` closes the
list with exactly one end token.
-/

set_option autoImplicit false

namespace FetchQuery

open Text

/-- A classified piece of source characters. -/
structure Lexeme where
  kind : TokenKind
  text : List Char
deriving DecidableEq, Repr

namespace Lexeme

/-- A comment from two hyphens to the end of the line; `cs` follows the hyphens. -/
def lineComment (cs : List Char) : Lexeme :=
  let body := cs.takeWhile (· != '\n')
  ⟨.comment (String.ofList (trimChars body)), '-' :: '-' :: body⟩

/-- The characters before the first `*/`, or `none` when there is no `*/`. -/
def commentBody? : List Char → Option (List Char)
  | [] => none
  | c :: cs =>
    if c = '*' ∧ cs.head? = some '/' then some []
    else (commentBody? cs).map (c :: ·)

/-- A comment body is what stands before a closing `*/`. -/
theorem exists_of_commentBody? (cs body : List Char) (h : commentBody? cs = some body) :
    ∃ rest, cs = body ++ '*' :: '/' :: rest := by
  fun_induction commentBody? cs generalizing body with
  | case1 => simp at h
  | case2 c cs hc =>
    obtain rfl : [] = body := by simpa using h
    obtain ⟨rfl, hcs⟩ := hc
    cases cs with
    | nil => simp at hcs
    | cons d rest => exact ⟨rest, by simpa using hcs⟩
  | case3 c cs hc ih =>
    obtain ⟨t, ht, rfl⟩ := Option.map_eq_some_iff.1 h
    obtain ⟨rest, rfl⟩ := ih t ht
    exact ⟨rest, rfl⟩

/-- A block comment; `cs` follows the opening `/*`. -/
def blockComment (cs : List Char) : Lexeme :=
  match commentBody? cs with
  | some body =>
    ⟨.comment (String.ofList (trimChars body)), '/' :: '*' :: (body ++ ['*', '/'])⟩
  | none => ⟨.fault .openBlockComment, '/' :: '*' :: cs⟩

/-- The source characters of a delimited run with the given content. -/
def delimited (first close : Char) (content : List Char) : List Char :=
  first :: (double close content ++ [close])

/-- A string literal; `cs` follows the opening quote. -/
def string (cs : List Char) : Lexeme :=
  match readDoubled? '\'' cs with
  | some content => ⟨.string (String.ofList content), delimited '\'' '\'' content⟩
  | none => ⟨.fault .openString, '\'' :: cs⟩

/-- An identifier in delimiters; `cs` follows the opening one. A name without
characters is a fault. -/
def quotedName (first close : Char) (empty unclosed : ScanFault) (cs : List Char) : Lexeme :=
  match readDoubled? close cs with
  | some [] => ⟨.fault empty, [first, close]⟩
  | some content => ⟨.identifier (String.ofList content), delimited first close content⟩
  | none => ⟨.fault unclosed, first :: cs⟩

/-- The fraction that follows the whole part of a number: a point counts only
when a digit stands behind it. -/
def fraction : List Char → List Char
  | '.' :: d :: cs => if d.isDigit then '.' :: (d :: cs).takeWhile Char.isDigit else []
  | _ => []

/-- A fraction is a run of the characters it is read from. -/
theorem fraction_isPrefix (cs : List Char) : fraction cs <+: cs := by
  unfold fraction
  split
  · split
    · exact (List.prefix_cons_inj _).2 <| List.takeWhile_prefix _
    · exact List.nil_prefix
  · exact List.nil_prefix

/-- A number that begins with the digit `c`. A word directly behind the digits
makes the whole a fault. -/
def number (c : Char) (cs : List Char) : Lexeme :=
  let whole := (c :: cs).takeWhile Char.isDigit
  let digits := whole ++ fraction ((c :: cs).drop whole.length)
  let rest := (c :: cs).drop digits.length
  if rest.head?.any isWordStart then
    let text := digits ++ rest.takeWhile isWordPart
    ⟨.fault (.badNumber (String.ofList text)), text⟩
  else ⟨.number (String.ofList digits), digits⟩

/-- A word that begins with `c`: a reserved word or an identifier. -/
def word (c : Char) (cs : List Char) : Lexeme :=
  let text := (c :: cs).takeWhile isWordPart
  let name := String.ofList text
  match Keyword.ofWord? name with
  | some k => ⟨.keyword k, text⟩
  | none => ⟨.identifier name, text⟩

/-- The operator or punctuation mark that `c` begins, given the character behind it. -/
def symbol? (c : Char) (next : Option Char) : Option Lexeme :=
  match c with
  | '=' => some ⟨.symbol .equal, ['=']⟩
  | '<' =>
    match next with
    | some '=' => some ⟨.symbol .lessEqual, ['<', '=']⟩
    | some '>' => some ⟨.symbol .notEqual, ['<', '>']⟩
    | _ => some ⟨.symbol .less, ['<']⟩
  | '>' =>
    match next with
    | some '=' => some ⟨.symbol .greaterEqual, ['>', '=']⟩
    | _ => some ⟨.symbol .greater, ['>']⟩
  | '!' =>
    match next with
    | some '=' => some ⟨.symbol .notEqual, ['!', '=']⟩
    | _ => some ⟨.fault .loneExclamation, ['!']⟩
  | '*' => some ⟨.symbol .star, ['*']⟩
  | '-' => some ⟨.symbol .minus, ['-']⟩
  | ',' => some ⟨.symbol .comma, [',']⟩
  | '.' => some ⟨.symbol .dot, ['.']⟩
  | '(' => some ⟨.symbol .openParen, ['(']⟩
  | ')' => some ⟨.symbol .closeParen, [')']⟩
  | ';' => some ⟨.symbol .semicolon, [';']⟩
  | _ => none

end Lexeme

/-- The lexeme that begins with the character `c`, which is not blank, before the
characters `cs`. Comments come before the operators that share their first
character. -/
def lexeme (c : Char) (cs : List Char) : Lexeme :=
  if c = '-' ∧ cs.head? = some '-' then Lexeme.lineComment cs.tail
  else if c = '/' ∧ cs.head? = some '*' then Lexeme.blockComment cs.tail
  else if c = '\'' then Lexeme.string cs
  else if c = '[' then Lexeme.quotedName '[' ']' .emptyBrackets .openBracket cs
  else if c = '"' then Lexeme.quotedName '"' '"' .emptyQuotes .openQuote cs
  else
    match Lexeme.symbol? c cs.head? with
    | some found => found
    | none =>
      if c.isDigit then Lexeme.number c cs
      else if isWordStart c then Lexeme.word c cs
      else ⟨.fault (.strayCharacter c), [c]⟩

/-- The tokens of the characters that remain when the first `skip` of them belong
to a token already found. -/
def scanFrom : Nat → Position → List Char → List Token
  | _, p, [] => [⟨.endOfInput, "", p⟩]
  | skip + 1, p, c :: cs => scanFrom skip (p.after c) cs
  | 0, p, c :: cs =>
    if isBlank c then scanFrom 0 (p.after c) cs
    else
      let found := lexeme c cs
      ⟨found.kind, String.ofList found.text, p⟩ ::
        scanFrom (found.text.length - 1) (p.after c) cs

/-- The tokens of a source text, the last of them its end. -/
def tokenize (source : String) : List Token :=
  scanFrom 0 Position.start source.toList

/-- The first `count` tokens of a source text; its end repeats without limit. -/
def firstTokens (source : String) (count : Nat) : List Token :=
  let tokens := tokenize source
  tokens.take count ++
    (tokens.getLast?.map (List.replicate (count - tokens.length))).getD []

end FetchQuery
