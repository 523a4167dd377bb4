import FetchQuery.Xml.Element
import FetchQuery.Xml.TagAttribute
import FetchQuery.Text.Basic

/-!
# Documents

A document is a single element tree, with the comments that come before it.
`Document.parse` builds it from the pieces of a text, one after the other, and fails
at the first piece that does not fit.
-/

set_option autoImplicit false

namespace FetchQuery.Xml

/-- Why a text is not a well-formed document. -/
inductive DocumentFault where
  | markup (fault : MarkupFault) (stop : Nat)
  | attributes (fault : AttributeFault)
  | reference (fault : ReferenceFault)
  | unmatchedEnd (name : String) (stop : Nat)
  | mismatchedEnd (opened closed : String) (stop : Nat)
  | secondRoot (name : String)
  | textOutsideRoot
  | cdataOutsideRoot
deriving DecidableEq, Repr

/-- A place in a document by the bytes before it. -/
def placeText (stop : Nat) : String :=
  " (at byte " ++ Nat.repr stop ++ ")"

/-- The text that reports a document fault. -/
def DocumentFault.message : DocumentFault → String
  | .markup fault stop => fault.message ++ placeText stop
  | .attributes fault => fault.message
  | .reference fault => fault.message
  | .unmatchedEnd name stop =>
    "ill-formed document: close tag `</" ++ name ++ ">` does not match any open tag" ++
      placeText stop
  | .mismatchedEnd opened closed stop =>
    "ill-formed document: expected `</" ++ opened ++ ">`, but `</" ++ closed ++ ">` was found" ++
      placeText stop
  | .secondRoot name => "unexpected second root element <" ++ name ++ ">"
  | .textOutsideRoot => "text outside the root element"
  | .cdataOutsideRoot => "CDATA outside the root element"

/-- Why a text is not a document. -/
inductive DocumentError where
  | malformed (fault : DocumentFault)
  | unclosed (name : String)
  | empty
deriving DecidableEq, Repr

/-- The text that reports a document error. -/
def DocumentError.message : DocumentError → String
  | .malformed fault => "Malformed XML: " ++ fault.message
  | .unclosed name => "Malformed XML: element <" ++ name ++ "> is not closed"
  | .empty => "Malformed XML: document is empty"

/-- A document: the comments before the root element, and the root element. -/
structure Document where
  comments : List String
  root : Element

/-- A document under construction: the elements still open, the innermost first, the
root element once it is complete, and the comments before it. -/
structure Builder where
  opened : List Element
  root : Option Element
  comments : List String

namespace Builder

/-- The builder before the first piece. -/
def start : Builder :=
  ⟨[], none, []⟩

/-- An element without content, from the content of its tag. -/
def element (content : List Char) : Except DocumentFault Element :=
  match tagAttributes content with
  | .ok attributes => .ok ⟨String.ofList (tagName content), attributes, [], ""⟩
  | .error fault => .error (.attributes fault)

/-- Adds a complete element to the innermost open one, or makes it the root. -/
def attach (b : Builder) (e : Element) : Except DocumentFault Builder :=
  match b.opened, b.root with
  | parent :: outer, _ =>
    .ok { b with opened := { parent with children := parent.children ++ [e] } :: outer }
  | [], some _ => .error (.secondRoot e.name)
  | [], none => .ok { b with root := some e }

/-- Opens an element, which outside of all others must be the first. -/
def openElement (b : Builder) (e : Element) : Except DocumentFault Builder :=
  if b.opened.isEmpty && b.root.isSome then .error (.secondRoot e.name)
  else .ok { b with opened := e :: b.opened }

/-- Closes the innermost open element, which must have the given name. -/
def closeElement (b : Builder) (name : String) (stop : Nat) : Except DocumentFault Builder :=
  match b.opened with
  | [] => .error (.unmatchedEnd name stop)
  | e :: outer =>
    if e.name = name then attach { b with opened := outer } e
    else .error (.mismatchedEnd e.name name stop)

/-- Adds character data to the innermost open element. Outside of all elements only
blanks may stand, and `outside` says what is wrong with other data. -/
def addText (b : Builder) (text : String) (blank : Bool) (outside : DocumentFault) :
    Except DocumentFault Builder :=
  match b.opened with
  | e :: outer => .ok { b with opened := { e with text := e.text ++ text } :: outer }
  | [] => if blank then .ok b else .error outside

/-- Keeps a comment that comes before the root element. -/
def addComment (b : Builder) (body : String) : Builder :=
  if b.opened.isEmpty && b.root.isNone then { b with comments := b.comments ++ [body] } else b

/-- Takes in the next piece. -/
def add (b : Builder) : Markup → Except DocumentFault Builder
  | .startTag content => (element content).bind b.openElement
  | .emptyTag content => (element content).bind b.attach
  | .endTag name stop => b.closeElement (String.ofList name) stop
  | .text raw =>
    match unescape raw with
    | .error fault => .error (.reference fault)
    | .ok cs => b.addText (String.ofList cs) (cs.all Text.isBlank) .textOutsideRoot
  | .cdata content => b.addText (String.ofList content) false .cdataOutsideRoot
  | .comment content => .ok (b.addComment (String.ofList (Text.trimChars content)))
  | .ignored => .ok b
  | .broken fault stop => .error (.markup fault stop)

/-- Takes in pieces one after the other. -/
def addAll : Builder → List Markup → Except DocumentFault Builder
  | b, [] => .ok b
  | b, piece :: rest => (b.add piece).bind fun next => next.addAll rest

/-- The finished document. -/
def finish (b : Builder) : Except DocumentError Document :=
  match b.opened, b.root with
  | e :: _, _ => .error (.unclosed e.name)
  | [], none => .error .empty
  | [], some root => .ok ⟨b.comments, root⟩

end Builder

/-- The characters of a text behind a byte order mark. -/
def dropMark : List Char → List Char
  | '\ufeff' :: cs => cs
  | cs => cs

/-- The document that an XML text describes. -/
def Document.parse (xml : String) : Except DocumentError Document :=
  match Builder.start.addAll (pieces (dropMark xml.toList)) with
  | .error fault => .error (.malformed fault)
  | .ok b => b.finish

end FetchQuery.Xml
