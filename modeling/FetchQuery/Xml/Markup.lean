import FetchQuery.Xml.Reference

/-!
# Markup pieces

An XML text is a sequence of pieces: runs of text between the markup, and what
stands between angle brackets. `pieces` cuts a text into them. It stops at the first
construct that does not close or does not open properly, and that construct is the
last piece, with the number of bytes passed.

Only the outline of a construct is settled here. The attributes of a tag, the
references in a text and the nesting of elements are read later.
-/

set_option autoImplicit false

namespace FetchQuery.Xml

/-- Why a construct between angle brackets has no proper outline. -/
inductive MarkupFault where
  | unknownConstruct
  | openInstruction
  | openComment
  | openDoctype
  | openCdata
  | openTag
  | unnamedDoctype
deriving DecidableEq, Repr

/-- The text that reports a markup fault. -/
def MarkupFault.message : MarkupFault → String
  | .unknownConstruct => "syntax error: unknown or missed symbol in markup"
  | .openInstruction =>
    "syntax error: processing instruction or xml declaration not closed: `?>` not found " ++
      "before end of input"
  | .openComment => "syntax error: comment not closed: `-->` not found before end of input"
  | .openDoctype => "syntax error: DOCTYPE not closed: `>` not found before end of input"
  | .openCdata => "syntax error: CDATA not closed: `]]>` not found before end of input"
  | .openTag => "syntax error: tag not closed: `>` not found before end of input"
  | .unnamedDoctype =>
    "ill-formed document: `<!DOCTYPE>` declaration does not contain a name of a document type"

/-- A piece of an XML text. The content of a tag is what stands between its angle
brackets, without the slash of an end tag or of an empty element; `stop` counts the
bytes up to the end of the piece. -/
inductive Markup where
  | text (raw : List Char)
  | startTag (content : List Char)
  | emptyTag (content : List Char)
  | endTag (name : List Char) (stop : Nat)
  | cdata (content : List Char)
  | comment (content : List Char)
  | ignored
  | broken (fault : MarkupFault) (stop : Nat)
deriving DecidableEq, Repr

/-- The blanks of XML: space, tab, carriage return and line feed. -/
def isSpace (c : Char) : Bool :=
  c == ' ' || c == '\t' || c == '\r' || c == '\n'

/-- The characters before the first `>` at which `closes` holds of the characters
already passed, the last of them first. -/
def untilClose? (closes : List Char → Bool) (passed : List Char) :
    List Char → Option (List Char)
  | [] => none
  | c :: cs =>
    if c = '>' ∧ closes passed then some passed.reverse
    else untilClose? closes (c :: passed) cs

/-- Whether a comment may close here: two hyphens have been passed, and they are not
those that open it. -/
def closesComment (passed : List Char) : Bool :=
  passed.take 2 == ['-', '-'] && 5 ≤ passed.length

/-- Whether a character data section may close here. -/
def closesCdata (passed : List Char) : Bool :=
  passed.take 2 == [']', ']']

/-- Whether a processing instruction may close here. -/
def closesInstruction (passed : List Char) : Bool :=
  passed.head? == some '?'

/-- The characters of a document type declaration before the `>` that closes it; every
`<` inside takes a `>` of its own, and `depth` of them are open. -/
def doctypeBody? : Nat → List Char → Option (List Char)
  | _, [] => none
  | depth, c :: cs =>
    if c = '<' then (doctypeBody? (depth + 1) cs).map (c :: ·)
    else if c = '>' then
      match depth with
      | 0 => some []
      | d + 1 => (doctypeBody? d cs).map (c :: ·)
    else (doctypeBody? depth cs).map (c :: ·)

/-- The characters of a tag before the first `>` outside quotes; `quote` is the quote
that is open, if one is. -/
def tagBody? : Option Char → List Char → Option (List Char)
  | _, [] => none
  | some q, c :: cs => (tagBody? (if c = q then none else some q) cs).map (c :: ·)
  | none, c :: cs =>
    if c = '>' then some []
    else (tagBody? (if c = '\'' ∨ c = '"' then some c else none) cs).map (c :: ·)

/-- The outline of a construct: what it is, and the characters between its angle
brackets; or its fault, with those characters if it does close. -/
inductive Outline where
  | closed (piece : Nat → Markup) (body : List Char)
  | faulty (fault : MarkupFault) (body : List Char)
  | unclosed (fault : MarkupFault)
  | unknown

/-- The outline of a comment, from its exclamation mark on. -/
def commentOutline (cs : List Char) : Outline :=
  match untilClose? closesComment [] cs with
  | none => .unclosed .openComment
  | some body =>
    if body.take 3 = ['!', '-', '-'] then
      .closed (fun _ => .comment ((body.drop 3).take (body.length - 5))) body
    else .faulty .openComment body

/-- The outline of a character data section, from its exclamation mark on. -/
def cdataOutline (cs : List Char) : Outline :=
  match untilClose? closesCdata [] cs with
  | none => .unclosed .openCdata
  | some body =>
    if body.take 8 = ['!', '[', 'C', 'D', 'A', 'T', 'A', '['] then
      .closed (fun _ => .cdata ((body.drop 8).take (body.length - 10))) body
    else .faulty .openCdata body

/-- The outline of a document type declaration, from its exclamation mark on. -/
def doctypeOutline (cs : List Char) : Outline :=
  match doctypeBody? 0 cs with
  | none => .unclosed .openDoctype
  | some body =>
    if (body.take 8).map Char.toUpper = ['!', 'D', 'O', 'C', 'T', 'Y', 'P', 'E'] then
      if (body.drop 8).all isSpace then .faulty .unnamedDoctype body
      else .closed (fun _ => .ignored) body
    else .faulty .openDoctype body

/-- The outline of a processing instruction or declaration, from its question mark
on. -/
def instructionOutline (cs : List Char) : Outline :=
  match untilClose? closesInstruction [] cs with
  | none => .unclosed .openInstruction
  | some body =>
    if body.length = 1 then .faulty .openInstruction body
    else .closed (fun _ => .ignored) body

/-- A run of characters without the blanks at its end. -/
def dropEndSpace (cs : List Char) : List Char :=
  (cs.reverse.dropWhile isSpace).reverse

/-- The name in an end tag, given what follows its slash. Blanks behind the name do not
belong to it; where there are only blanks, they are the name. -/
def endTagName (content : List Char) : List Char :=
  if content.all isSpace then content else dropEndSpace content

/-- The piece of a tag with the given characters between its angle brackets. -/
def tagPiece (body : List Char) (stop : Nat) : Markup :=
  match body with
  | '/' :: content => .endTag (endTagName content) stop
  | _ =>
    if body.getLast? = some '/' then .emptyTag body.dropLast
    else .startTag body

/-- The outline of a tag. -/
def tagOutline (cs : List Char) : Outline :=
  match tagBody? none cs with
  | none => .unclosed .openTag
  | some body => .closed (tagPiece body) body

/-- The outline of the construct behind a `<`, told apart by its first characters. -/
def outline (cs : List Char) : Outline :=
  match cs with
  | '!' :: '[' :: _ => cdataOutline cs
  | '!' :: '-' :: _ => commentOutline cs
  | '!' :: 'D' :: _ => doctypeOutline cs
  | '!' :: 'd' :: _ => doctypeOutline cs
  | '!' :: _ => .unknown
  | '?' :: _ => instructionOutline cs
  | _ => tagOutline cs

/-- The pieces of the characters that remain from byte `start` on, when the first
`skip` of them belong to a piece already found. The whole text has `total` bytes. -/
def piecesFrom (total : Nat) : Nat → Nat → List Char → List Markup
  | _, _, [] => []
  | skip + 1, start, c :: cs => piecesFrom total skip (start + c.utf8Size) cs
  | 0, start, c :: cs =>
    if c = '<' then
      match outline cs with
      | .closed piece body =>
        piece (start + 2 + byteLength body) ::
          piecesFrom total (body.length + 1) (start + 1) cs
      | .faulty fault body => [.broken fault (start + 2 + byteLength body)]
      | .unclosed fault => [.broken fault total]
      | .unknown => [.broken .unknownConstruct (start + 1)]
    else
      let raw := (c :: cs).takeWhile (· != '<')
      .text raw :: piecesFrom total (raw.length - 1) (start + c.utf8Size) cs

/-- The pieces of an XML text. -/
def pieces (cs : List Char) : List Markup :=
  piecesFrom (byteLength cs) 0 0 cs

end FetchQuery.Xml
