import FetchQuery.Proofs.Fetch.Rewriting

/-!
# The links of a written statement

`linksWithin` lists the link elements of a document, each with the element around it. In the
document of a statement they are the joins in depth-first order, one element for each join, and
every link stands directly inside the element of its parent (`forall₂_linksWithin`). Statements
with the same link nodes have the same links in the same places (`nesting_eq`).
-/

set_option autoImplicit false

namespace FetchQuery.Fetch

open Xml Xml.Node JoinForest

mutual

/-- The link elements inside an element, in document order, each with the element directly
around it. -/
def linksWithin : Element → List (Element × Element)
  | e@⟨_, _, children, _⟩ => linksAmong e children

/-- The link elements among children of an element and inside of them. -/
def linksAmong (parent : Element) : List Element → List (Element × Element)
  | [] => []
  | child :: rest =>
    (if child.name = "link-entity" then [(parent, child)] else []) ++ linksWithin child ++
      linksAmong parent rest

end

/-- A link element with the tag of the element around it. -/
def placed (link : Element × Element) : (String × List (String × String)) × Element :=
  ((link.1.name, link.1.attributes), link.2)

/-- How the links in an element are nested: each of them with the tag around it. -/
def nesting (e : Element) : List ((String × List (String × String)) × Element) :=
  (linksWithin e).map placed

/-- A link element that states a join. -/
structure IsLinkOf (j : Join) (e : Element) : Prop where
  name : e.name = "link-entity"
  entity : e.attr? "name" = some j.entity
  label : e.attr? "alias" = j.label
  kind : e.attr? "link-type" = some j.kind.fetch
  fromAttribute : e.attr? "to" = some j.fromAttribute
  toAttribute : e.attr? "from" = some j.toAttribute

/-- The element of the entity with the qualifier `owner`, the root having none. -/
def IsElementOf (s : Statement) : Option String → Element → Prop
  | none, e => e.name = "entity" ∧ e.attr? "name" = some s.source.entity
  | some q, e => ∃ j ∈ s.joins, j.qualifier = q ∧ IsLinkOf j e

/-- A link element that states a join, inside the element of the join's parent. -/
def StatesJoin (s : Statement) (j : Join) (link : Element × Element) : Prop :=
  IsElementOf s j.parent link.1 ∧ IsLinkOf j link.2

theorem isLinkOf_linkAttributes (j : Join) (children : List Element) (text : String) :
    IsLinkOf j ⟨"link-entity", linkAttributes j, children, text⟩ := by
  obtain ⟨entity, label, kind, parent, fromAttribute, toAttribute, items⟩ := j
  constructor <;> cases label <;> rfl

/-! ## Elements without links -/

theorem linksAmong_append (parent : Element) (xs ys : List Element) :
    linksAmong parent (xs ++ ys) = linksAmong parent xs ++ linksAmong parent ys := by
  induction xs with
  | nil => rfl
  | cons x xs ih => simp [linksAmong, ih]

theorem linksAmong_elements_cons (indent depth : Nat) (parent : Element) (node : Node)
    (nodes : List Node) :
    linksAmong parent (elements indent depth (node :: nodes)) =
      linksAmong parent (elements indent depth [node]) ++
        linksAmong parent (elements indent depth nodes) := by
  rw [← List.singleton_append, elements_append, linksAmong_append]

/-- Nodes whose elements are no links and hold none. -/
def Unlinked (nodes : List Node) : Prop :=
  ∀ (indent depth : Nat) (parent : Element), linksAmong parent (elements indent depth nodes) = []

theorem unlinked_nil : Unlinked [] := by
  intro indent depth parent
  simp [elements, linksAmong]

theorem Unlinked.append {xs ys : List Node} (hxs : Unlinked xs) (hys : Unlinked ys) :
    Unlinked (xs ++ ys) := by
  intro indent depth parent
  rw [elements_append, linksAmong_append, hxs, hys, List.append_nil]

theorem unlinked_map {α : Type} {node : α → Node} {as : List α}
    (h : ∀ a ∈ as, Unlinked [node a]) : Unlinked (as.map node) :=
  map_of_append unlinked_nil Unlinked.append h

theorem unlinked_leaf {name : String} (hname : name ≠ "link-entity")
    (attributes : List (String × String)) : Unlinked [.leaf name attributes] := by
  intro indent depth parent
  simp [elements_leaf, linksAmong, linksWithin, hname]

theorem unlinked_branch {name : String} (hname : name ≠ "link-entity")
    (attributes : List (String × String)) {children : List Node} (h : Unlinked children) :
    Unlinked [.branch name attributes children] := by
  intro indent depth parent
  simp [elements_branch, linksAmong, linksWithin, hname, h indent (depth + 1)]

theorem unlinked_texts {name : String} (hname : name ≠ "link-entity") (texts : List String) :
    Unlinked (texts.map (Node.text name)) := by
  refine unlinked_map fun text _ indent depth parent => ?_
  simp [elements, linksAmong, linksWithin, hname]

theorem unlinked_itemNode (s : Statement) (entity : String) (item : SelectItem) :
    Unlinked [itemNode s entity item] := by
  obtain ⟨c | call | owner, label⟩ := item
  · change Unlinked [columnNode s c label]
    unfold columnNode
    split
    · exact unlinked_leaf (by decide) _
    · cases label <;> exact unlinked_leaf (by decide) _
  · exact unlinked_leaf (by decide) _
  · exact unlinked_leaf (by decide) _

theorem unlinked_attributeNodes (s : Statement) (owner : Option String) (entity : String)
    (items : List SelectItem) : Unlinked (attributeNodes s owner entity items) :=
  (unlinked_map fun item _ => unlinked_itemNode s entity item).append
    (unlinked_map fun _ _ => unlinked_leaf (by decide) _)

mutual

theorem unlinked_node : ∀ f : Filter, Unlinked [f.node]
  | .condition column operator .none => unlinked_leaf (by decide) _
  | .condition column operator (.single value) => unlinked_leaf (by decide) _
  | .condition column operator (.list texts) =>
    unlinked_branch (by decide) _ (unlinked_texts (by decide) texts)
  | .group op children => unlinked_branch (by decide) _ (unlinked_nodes children)

theorem unlinked_nodes : ∀ fs : List Filter, Unlinked (Filter.nodes fs)
  | [] => unlinked_nil
  | f :: fs => by
    rw [Filter.nodes, ← List.singleton_append]
    exact (unlinked_node f).append (unlinked_nodes fs)

end

theorem unlinked_filterNodes (s : Statement) : Unlinked (filterNodes s) := by
  rw [filterNodes]
  split
  · exact unlinked_node _
  · exact unlinked_nil

/-- The links in an element are found among those of its children that may hold any. -/
theorem linksWithin_eq {e : Element} {indent depth : Nat} {others links : List Node}
    (hchildren : e.children = elements indent depth (others ++ links)) (hothers : Unlinked others) :
    linksWithin e = linksAmong e (elements indent depth links) := by
  obtain ⟨name, attributes, children, text⟩ := e
  obtain rfl : children = _ := hchildren
  have hlinks : ∀ parent, linksAmong parent (elements indent depth (others ++ links)) =
      linksAmong parent (elements indent depth links) := by
    intro parent
    rw [elements_append, linksAmong_append, hothers, List.nil_append]
  exact hlinks _

/-! ## The links of a statement -/

/-- The links of a document are those below its entity element. -/
theorem linksWithin_root (s : Statement) (indent : Nat) :
    ∃ entity : Element, entity.name = "entity" ∧
      entity.attributes = [("name", s.source.entity)] ∧
      linksWithin (rootElement indent "fetch" (fetchAttributes s) [entityNode s]) =
        linksAmong entity (elements indent 2 (linkNodes s s.joins.length none)) := by
  have hothers : Unlinked (attributeNodes s none s.source.entity s.items ++
      s.orderBy.map (orderNode s) ++ filterNodes s) :=
    ((unlinked_attributeNodes s none s.source.entity s.items).append
      (unlinked_map fun _ _ => unlinked_leaf (by decide) _)).append (unlinked_filterNodes s)
  obtain ⟨entity, hentity, hname, hattributes, hchildren⟩ : ∃ entity : Element,
      elements indent 1 [entityNode s] = [entity] ∧ entity.name = "entity" ∧
        entity.attributes = [("name", s.source.entity)] ∧
        entity.children = elements indent 2 (_ ++ linkNodes s s.joins.length none) :=
    ⟨_, elements_branch .., rfl, rfl, rfl⟩
  refine ⟨entity, hname, hattributes, ?_⟩
  rw [rootElement, hentity, linksWithin, linksAmong, linksWithin_eq hchildren hothers]
  simp [hname, linksAmong]

section Links

variable {s : Statement}

/-- The element of a join states it, and is followed by the links inside of it. -/
theorem forall₂_link {indent depth : Nat} {j : Join} (hj : j ∈ s.joins) {parent : Element}
    (hparent : IsElementOf s j.parent parent) {below : List Join} {links : List Node}
    (hlinks : ∀ e, IsElementOf s (some j.qualifier) e →
      List.Forall₂ (StatesJoin s) below (linksAmong e (elements indent (depth + 1) links))) :
    let children := attributeNodes s (some j.qualifier) j.entity j.items ++ links
    List.Forall₂ (StatesJoin s) (j :: below)
      (linksAmong parent (elements indent depth
        [if children.isEmpty then .leaf "link-entity" (linkAttributes j)
          else .branch "link-entity" (linkAttributes j) children])) := by
  intro children
  obtain ⟨text, helement⟩ := exists_linkElement indent depth (linkAttributes j) children
  have hlink := isLinkOf_linkAttributes j (elements indent (depth + 1) children) text
  have hwithin := linksWithin_eq
    (e := ⟨"link-entity", linkAttributes j, elements indent (depth + 1) children, text⟩) rfl
    (unlinked_attributeNodes s (some j.qualifier) j.entity j.items)
  rw [helement, linksAmong, hwithin, if_pos rfl, linksAmong, List.append_nil]
  exact .cons ⟨hparent, hlink⟩ (hlinks _ ⟨j, hj, rfl, hlink⟩)

/-- The links below an entity state its joins in preorder. -/
theorem forall₂_linkNodes (indent levels depth : Nat) {owner : Option String} {parent : Element}
    (hparent : IsElementOf s owner parent) :
    List.Forall₂ (StatesJoin s) (preorder s.joins levels owner)
      (linksAmong parent (elements indent depth (linkNodes s levels owner))) := by
  induction levels generalizing owner depth parent with
  | zero => simp [preorder, linkNodes, elements, linksAmong]
  | succ levels ih =>
    have hchildren : ∀ j ∈ childrenOf s.joins owner, j ∈ s.joins ∧ j.parent = owner :=
      fun j hj => mem_childrenOf.1 hj
    rw [preorder, linkNodes, ← childrenOf]
    generalize childrenOf s.joins owner = children at hchildren ⊢
    -- siblings are written from left to right
    induction children with
    | nil => simp [elements, linksAmong]
    | cons j children ihc =>
      obtain ⟨hj, howner⟩ := hchildren j List.mem_cons_self
      have hfirst := forall₂_link hj (howner ▸ hparent) fun e he => ih (depth + 1) he
      have hrest := ihc fun j' hj' => hchildren j' (List.mem_cons_of_mem j hj')
      rw [List.flatMap_cons, List.map_cons, linksAmong_elements_cons]
      exact List.rel_append hfirst hrest

/-- The links of a document state the joins of the statement in preorder. -/
theorem forall₂_linksWithin (s : Statement) (indent : Nat) :
    List.Forall₂ (StatesJoin s) (nestedJoins s)
      (linksWithin (rootElement indent "fetch" (fetchAttributes s) [entityNode s])) := by
  obtain ⟨entity, hname, hattributes, hlinks⟩ := linksWithin_root s indent
  rw [hlinks]
  refine forall₂_linkNodes indent s.joins.length 2 ⟨hname, ?_⟩
  rw [Element.attr?, hattributes]
  rfl

end Links

/-! ## Writing a returned statement again -/

/-- The links do not depend on the comments. -/
theorem linkNodes_comments (s : Statement) (comments : List String) (levels : Nat)
    (owner : Option String) :
    linkNodes { s with comments } levels owner = linkNodes s levels owner := by
  induction levels generalizing owner with
  | zero => rfl
  | succ levels ih =>
    rw [linkNodes, linkNodes]
    simp only [ih]
    rfl

/-- Of the element around links only the tag matters for their nesting. -/
theorem map_placed_linksAmong {parent parent' : Element} (hname : parent.name = parent'.name)
    (hattributes : parent.attributes = parent'.attributes) (xs : List Element) :
    (linksAmong parent xs).map placed = (linksAmong parent' xs).map placed := by
  induction xs with
  | nil => rfl
  | cons x xs ih =>
    rw [linksAmong, linksAmong, List.map_append, List.map_append, List.map_append, List.map_append,
      ih]
    split <;> simp [placed, hname, hattributes]

/-- Statements with the same root and the same link elements nest their links alike. -/
theorem nesting_eq {s s' : Statement} (hsource : s'.source.entity = s.source.entity)
    (hlinks : linkNodes s' s'.joins.length none = linkNodes s s.joins.length none) (indent : Nat) :
    nesting (rootElement indent "fetch" (fetchAttributes s') [entityNode s']) =
      nesting (rootElement indent "fetch" (fetchAttributes s) [entityNode s]) := by
  obtain ⟨entity, hname, hattributes, hwithin⟩ := linksWithin_root s indent
  obtain ⟨entity', hname', hattributes', hwithin'⟩ := linksWithin_root s' indent
  rw [nesting, nesting, hwithin, hwithin', hlinks]
  exact map_placed_linksAmong (hname'.trans hname.symm)
    (by rw [hattributes', hattributes, hsource]) _

end FetchQuery.Fetch
