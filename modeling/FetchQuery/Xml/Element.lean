import FetchQuery.Text.Basic

/-!
# Element trees

A document is kept as its elements. Attributes stay in document order and a name is
looked up from the front, so the first of two equal names counts. Character data is
kept per element, without its place among the children.
-/

set_option autoImplicit false

namespace FetchQuery.Xml

/-- An element with its attributes in document order, its child elements, and all
character data directly inside it. -/
structure Element where
  name : String
  attributes : List (String × String)
  children : List Element
  text : String

namespace Element

/-- The value of the first attribute with a name. -/
def attr? (e : Element) (name : String) : Option String :=
  (e.attributes.find? fun a => a.1 == name).map Prod.snd

/-- Whether an attribute is present and says `true`, in any letter case, or `1`. -/
def flag (e : Element) (name : String) : Bool :=
  (e.attr? name).any fun v => Text.sameName v "true" || v == "1"

/-- The children with a name, in document order. -/
def childrenNamed (e : Element) (name : String) : List Element :=
  e.children.filter fun c => c.name == name

end Element

end FetchQuery.Xml
