import FetchQuery.Fetch.Read

/-!
# Documents without their layout

The indentation of a document is text between its elements, which no clause of a statement is read
from: only the text of a value element counts. `bare` takes the other text away, and a document is
read as the same statement with and without it (`ofDocument_bare`).
-/

set_option autoImplicit false

namespace FetchQuery.Fetch

open Xml

/-! ## Taking the layout away -/

mutual

/-- An element without the text around its children. Value elements keep their text. -/
def bare : Element → Element
  | ⟨name, attributes, children, text⟩ =>
    ⟨name, attributes, bareAll children, if name = "value" then text else ""⟩

/-- Elements without the text around their children. -/
def bareAll : List Element → List Element
  | [] => []
  | e :: es => bare e :: bareAll es

end

theorem bareAll_eq (es : List Element) : bareAll es = es.map bare := by
  induction es with
  | nil => rw [bareAll, List.map_nil]
  | cons e es ih => rw [bareAll, List.map_cons, ih]

@[simp] theorem bare_name (e : Element) : (bare e).name = e.name := by
  obtain ⟨name, attributes, children, text⟩ := e
  rw [bare]

@[simp] theorem bare_attr? (e : Element) (name : String) : (bare e).attr? name = e.attr? name := by
  obtain ⟨_, attributes, children, text⟩ := e
  rw [bare]
  rfl

@[simp] theorem bare_flag (e : Element) (name : String) : (bare e).flag name = e.flag name := by
  rw [Element.flag, Element.flag, bare_attr?]

theorem bare_children (e : Element) : (bare e).children = bareAll e.children := by
  obtain ⟨name, attributes, children, text⟩ := e
  rw [bare]

theorem bare_childrenNamed (e : Element) (name : String) :
    (bare e).childrenNamed name = (e.childrenNamed name).map bare := by
  rw [Element.childrenNamed, bare_children, bareAll_eq, List.filter_map, Element.childrenNamed]
  congr 2
  funext child
  exact congrArg (· == name) (bare_name child)

theorem bare_text_of_value {e : Element} (h : e.name = "value") : (bare e).text = e.text := by
  obtain ⟨name, attributes, children, text⟩ := e
  rw [bare]
  exact if_pos h

/-! ## Reading bare elements -/

theorem conditionValues_bare (e : Element) : conditionValues (bare e) = conditionValues e := by
  -- the only place where the text of an element is read
  rw [conditionValues, conditionValues, bare_attr?, bare_childrenNamed, List.map_map]
  congr 1
  apply List.map_congr_left
  intro child hchild
  exact bare_text_of_value (eq_of_beq (List.mem_filter.1 hchild).2)

theorem readCondition_bare (owner : Option String) (e : Element) :
    readCondition owner (bare e) = readCondition owner e := by
  simp only [readCondition, bare_attr?, conditionValues_bare]

theorem filterConnective_bare (e : Element) : filterConnective (bare e) = filterConnective e := by
  rw [filterConnective, filterConnective, bare_attr?]

mutual

theorem readFilter_bare (owner : Option String) :
    ∀ e : Element, readFilter owner (bare e) = readFilter owner e
  | ⟨name, attributes, children, text⟩ => by
    have hconnective := filterConnective_bare ⟨name, attributes, children, text⟩
    rw [bare] at hconnective ⊢
    rw [readFilter, readFilter, hconnective, readOperands_bare owner children]

theorem readOperands_bare (owner : Option String) :
    ∀ es : List Element, readOperands owner (bareAll es) = readOperands owner es
  | [] => by rw [bareAll]
  | e :: es => by
    rw [bareAll, readOperands, readOperands, readOperands_bare owner es, readFilter_bare owner e,
      readCondition_bare, bare_name]

end

theorem readAttribute_bare (owner : Owner) (e : Element) (d : Draft) :
    readAttribute owner (bare e) d = readAttribute owner e d := by
  simp only [readAttribute, readAggregate, dateGroupingWarning, bare_attr?, bare_flag]

theorem addOrder_bare (owner : Owner) (e : Element) (d : Draft) :
    addOrder owner (bare e) d = addOrder owner e d := by
  simp only [addOrder, readOrder, bare_attr?, bare_flag]

theorem addFilter_bare (owner : Owner) (e : Element) (d : Draft) :
    addFilter owner (bare e) d = addFilter owner e d := by
  rw [addFilter, addFilter, readFilter_bare]

theorem readLink_bare (parent : Option String) (e : Element) :
    readLink parent (bare e) = readLink parent e := by
  simp only [readLink, required, linkKind, bare_attr?]

mutual

theorem readBody_bare (root : String) (owner : Owner) :
    ∀ (es : List Element) (d : Draft),
      readBody root owner (bareAll es) d = readBody root owner es d
  | [], d => by rw [bareAll]
  | e :: es, d => by
    have hrest : readBody root owner (bareAll es) = readBody root owner es :=
      funext (readBody_bare root owner es)
    rw [bareAll, readBody, readBody]
    simp only [bare_name, readAttribute_bare, addOrder_bare, addFilter_bare, hrest,
      readJoin_bare root owner e d]

theorem readJoin_bare (root : String) (owner : Owner) :
    ∀ (e : Element) (d : Draft), readJoin root owner (bare e) d = readJoin root owner e d
  | ⟨name, attributes, children, text⟩, d => by
    have hlink := readLink_bare owner.qualifier ⟨name, attributes, children, text⟩
    rw [bare] at hlink ⊢
    rw [readJoin, readJoin, hlink]
    congr 1
    funext join
    rw [readBody_bare root (ownerOf join.value) children]

end

/-- A document is read as the same statement without its layout. -/
theorem ofDocument_bare (comments : List String) (root : Element) :
    ofDocument ⟨comments, bare root⟩ = ofDocument ⟨comments, root⟩ := by
  have hsiblings : siblingWarnings (bare root) = siblingWarnings root := by
    rw [siblingWarnings, siblingWarnings, bare_childrenNamed, List.length_map, bare_children,
      bareAll_eq, List.filter_map, List.map_map]
    simp only [Function.comp_def, bare_name]
  have htop : readTop (bare root) = readTop root := by
    simp only [readTop, bare_attr?]
  have hpage : pageWarning (bare root) = pageWarning root := by
    rw [pageWarning, pageWarning, bare_attr?]
  simp only [ofDocument, bare_name, bare_childrenNamed, htop, hpage, hsiblings, bare_flag]
  cases root.childrenNamed "entity" with
  | nil => rfl
  | cons entity rest =>
    simp only [List.map_cons, bare_attr?, bare_children, readBody_bare]

end FetchQuery.Fetch
