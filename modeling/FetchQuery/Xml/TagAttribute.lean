import FetchQuery.Xml.Markup

/-!
# The attributes of a tag

The content of a tag is its name followed by attributes: a key, an equals sign, and a
value in quotes. Places are counted in bytes from the start of the content. The
attributes are read one after the other, so that of two faults the first one counts.
-/

set_option autoImplicit false

namespace FetchQuery.Xml

/-- Why the attributes of a tag cannot be read. -/
inductive AttributeFault where
  | noEquals (place : Nat)
  | noValue (place : Nat)
  | noQuote (place : Nat)
  | openQuote (place : Nat) (quote : Char)
  | repeatedKey (place : Nat) (earlier : Nat)
  | reference (fault : ReferenceFault)
deriving DecidableEq, Repr

/-- The text that reports an attribute fault. -/
def AttributeFault.message : AttributeFault → String
  | .noEquals place =>
    "position " ++ Nat.repr place ++ ": attribute key must be directly followed by `=` or space"
  | .noValue place =>
    "position " ++ Nat.repr place ++ ": `=` must be followed by an attribute value"
  | .noQuote place =>
    "position " ++ Nat.repr place ++ ": attribute value must be enclosed in `\"` or `'`"
  | .openQuote place quote =>
    "position " ++ Nat.repr place ++ ": missing closing quote `" ++ quote.toString ++
      "` in attribute value"
  | .repeatedKey place earlier =>
    "position " ++ Nat.repr place ++ ": duplicated attribute, previous declaration at position " ++
      Nat.repr earlier
  | .reference fault => fault.message

/-- The key at the start of `cs`. Its first character may be any, also an equals sign. -/
def attributeKey : List Char → List Char
  | [] => []
  | c :: cs => c :: cs.takeWhile fun d => d != '=' && !isSpace d

/-- The characters behind the equals sign that follows a key, with blanks allowed on
both sides of the sign. `total` is the length of the content, and places are found by
what is left of it. -/
def behindEquals (total : Nat) (cs : List Char) : Except AttributeFault (List Char) :=
  match cs.dropWhile isSpace with
  | '=' :: rest => .ok (rest.dropWhile isSpace)
  | rest => .error (.noEquals (total - byteLength rest))

/-- The raw value between the quotes at the start of `cs`. -/
def quotedValue (total : Nat) (cs : List Char) : Except AttributeFault (List Char) :=
  match cs with
  | [] => .error (.noValue total)
  | q :: rest =>
    if q = '"' ∨ q = '\'' then
      if rest.contains q then .ok (rest.takeWhile (· != q))
      else .error (.openQuote total q)
    else .error (.noQuote (total - byteLength cs))

/-- Reads the attributes in `cs`, at most `n` of them, when the keys in `seen` have
been read at the given places. -/
def attributesWithin (total : Nat) :
    Nat → List (List Char × Nat) → List Char → Except AttributeFault (List (String × String))
  | 0, _, _ => .ok []
  | n + 1, seen, cs =>
    match cs.dropWhile isSpace with
    | [] => .ok []
    | c :: rest =>
      let key := attributeKey (c :: rest)
      let place := total - byteLength (c :: rest)
      match behindEquals total ((c :: rest).drop key.length) with
      | .error fault => .error fault
      | .ok behind =>
        match seen.find? fun k => k.1 == key with
        | some (_, earlier) => .error (.repeatedKey place earlier)
        | none =>
          match quotedValue total behind with
          | .error fault => .error fault
          | .ok raw =>
            match unescape raw with
            | .error fault => .error (.reference fault)
            | .ok value =>
              match attributesWithin total n ((key, place) :: seen) (behind.drop (raw.length + 2)) with
              | .error fault => .error fault
              | .ok others => .ok ((String.ofList key, String.ofList value) :: others)

/-- The name at the start of the content of a tag. -/
def tagName (content : List Char) : List Char :=
  content.takeWhile fun c => !isSpace c

/-- The attributes in the content of a tag. -/
def tagAttributes (content : List Char) : Except AttributeFault (List (String × String)) :=
  attributesWithin (byteLength content) content.length [] (content.drop (tagName content).length)

end FetchQuery.Xml
