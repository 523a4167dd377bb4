import FetchQuery.Fetch.Draft
import FetchQuery.Fetch.Known

/-!
# Reading FetchXML

`Fetch.read` turns a document into a statement. Only defects of the structure are
errors: a wrong root, a missing entity, a link without its attributes. Everything else
that a statement cannot say becomes a warning.
-/

set_option autoImplicit false

namespace FetchQuery.Fetch

open Xml

/-- The items of an aggregate query that are neither aggregated nor grouped. -/
def strayWarnings (s : Statement) : List Warning :=
  if s.allItems.any SelectItem.isAggregate then
    s.allItems.filterMap fun item =>
      match item.value with
      | .column c => if s.groupBy.contains c then none else some (.strayItem c.display)
      | .wildcard _ => some (.strayItem "*")
      | .aggregate _ => none
  else []

/-- The row limit of a fetch element: its `top`, or else its page size. -/
def readTop (e : Element) : Reading (Option UInt64) :=
  let top : Reading (Option UInt64) :=
    match e.attr? "top" with
    | none => ⟨none, []⟩
    | some text =>
      match rowCount? (Text.trim text) with
      | some n => ⟨some n, []⟩
      | none => ⟨none, [.badTop text]⟩
  match e.attr? "count" with
  | none => top
  | some text =>
    match rowCount? (Text.trim text), top.value with
    | some n, none => ⟨some n, top.warnings ++ [.countAsTop text n]⟩
    | _, _ => ⟨top.value, top.warnings ++ [.countDropped text]⟩

/-- The warning for a page other than the first. -/
def pageWarning (e : Element) : List Warning :=
  match e.attr? "page" with
  | none => []
  | some text => if Text.trim text = "1" then [] else [.pageDropped text]

/-- The warnings for the children of a fetch element that are not read. -/
def siblingWarnings (e : Element) : List Warning :=
  (if 1 < (e.childrenNamed "entity").length then [.furtherEntities] else []) ++
    (e.children.filter fun c => c.name != "entity").map fun c => .unknownElement c.name

/-- The statement of a complete draft, with the warnings that come last. -/
def finish (comments : List String) (distinct : Bool) (top : Option UInt64) (root : String)
    (items : List SelectItem) (d : Draft) : Reading Statement :=
  let known : Known := ⟨root, d.joins.map Join.qualifier⟩
  let condition : Reading (Option Condition) :=
    match Condition.chain? .and d.conditions with
    | some e => retainKnown known e
    | none => ⟨none, []⟩
  let orderBy := retainOrders known d.orderBy
  let s : Statement :=
    ⟨comments, distinct, top, items, ⟨root, none⟩, d.joins, condition.value, d.groupBy,
      orderBy.value⟩
  ⟨s, d.warnings ++ condition.warnings ++ orderBy.warnings ++ strayWarnings s⟩

/-- The statement that a document describes. -/
def ofDocument (doc : Document) : Except ReadError (Reading Statement) :=
  if doc.root.name ≠ "fetch" then .error (.unexpectedRoot doc.root.name)
  else
    match doc.root.childrenNamed "entity" with
    | [] => .error .noEntity
    | entity :: _ =>
      match entity.attr? "name" with
      | none => .error (.noAttribute "entity" "name")
      | some root =>
        let top := readTop doc.root
        let warnings := top.warnings ++ pageWarning doc.root ++ siblingWarnings doc.root
        (readBody root ⟨none, root, .inner⟩ entity.children ⟨[], [], [], [], warnings⟩).map
          fun (items, d) =>
            finish doc.comments (doc.root.flag "distinct") top.value root items d

/-- The statement that a FetchXML text describes. -/
def read (xml : String) : Except ReadError (Reading Statement) :=
  match Document.parse xml with
  | .error error => .error (.document error)
  | .ok doc => ofDocument doc

end FetchQuery.Fetch
