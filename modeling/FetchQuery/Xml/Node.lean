import FetchQuery.Xml.Reference

/-!
# Writing markup

Markup is written from a list of nodes. With an indentation of zero everything stands
on one line. Otherwise every node and every end tag begins a line of its own, moved in
by the indentation for every level around it; an element that holds text stays on
one line, so that no blank is added to the text.
-/

set_option autoImplicit false

namespace FetchQuery.Xml

/-- Markup to be written: a comment, an element without content, an element that holds
only text, or an element with child nodes. -/
inductive Node where
  | comment (body : String)
  | leaf (name : String) (attributes : List (String × String))
  | text (name : String) (content : String)
  | branch (name : String) (attributes : List (String × String)) (children : List Node)

namespace Node

/-- An attribute with its value in quotes. -/
def attributeText (a : String × String) : String :=
  " " ++ a.1 ++ "=\"" ++ escape a.2 ++ "\""

/-- The name and the attributes of a tag. -/
def tagText (name : String) (attributes : List (String × String)) : String :=
  name ++ String.join (attributes.map attributeText)

/-- The start of a line at a depth, when lines are used. -/
def lineStart (indent depth : Nat) : String :=
  if indent = 0 then "" else "\n" ++ String.ofList (List.replicate (depth * indent) ' ')

mutual

/-- The text of a node at a depth. -/
def render (indent depth : Nat) : Node → String
  | .comment body => "<!--" ++ body ++ "-->"
  | .leaf name attributes => "<" ++ tagText name attributes ++ "/>"
  | .text name content => "<" ++ name ++ ">" ++ escape content ++ "</" ++ name ++ ">"
  | .branch name attributes children =>
    "<" ++ tagText name attributes ++ ">" ++ renderAll indent (depth + 1) children ++
      lineStart indent depth ++ "</" ++ name ++ ">"

/-- The text of nodes that follow each other, each on a line of its own. -/
def renderAll (indent depth : Nat) : List Node → String
  | [] => ""
  | node :: nodes => lineStart indent depth ++ render indent depth node ++ renderAll indent depth nodes

end

/-- The text of a whole document. The first node begins it without a line break. -/
def renderDocument (indent : Nat) : List Node → String
  | [] => ""
  | node :: nodes => render indent 0 node ++ renderAll indent 0 nodes

end Node

end FetchQuery.Xml
