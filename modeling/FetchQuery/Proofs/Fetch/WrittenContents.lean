import FetchQuery.Proofs.Fetch.Contents
import FetchQuery.Proofs.Fetch.Reparsing
import FetchQuery.Proofs.Fetch.StatementReading

/-!
# The contents of a written document

The contents of the document of a statement are known element by element: the attributes and the
sort columns of the root, its filter, and for every join in preorder its link and its attributes.
`flatMap_entityContents` says so for everything that is collected from the elements one by one.

The attribute elements of an entity carry labels: those of the result columns of its items, and the
names of its grouping columns that are not selected (`flatMap_attributeElements`).
-/

set_option autoImplicit false

namespace FetchQuery.Fetch

open Xml Xml.Node JoinForest

/-! ## Elements without content -/

/-- Nodes that are written as one tag each. -/
def Leaves (nodes : List Node) : Prop :=
  ∀ n ∈ nodes, ∃ name attributes, n = .leaf name attributes ∧ name ≠ "link-entity"

/-- The elements of leaves do not depend on the indentation. -/
theorem Leaves.elements_eq {nodes : List Node} (h : Leaves nodes) (indent depth : Nat) :
    elements indent depth nodes = elements 0 0 nodes := by
  induction nodes with
  | nil => simp [elements]
  | cons node nodes ih =>
    obtain ⟨name, attributes, rfl, -⟩ := h node List.mem_cons_self
    rw [elements, elements, ih fun n hn => h n (List.mem_cons_of_mem _ hn)]

/-- The elements of leaves are their tags, without children. -/
theorem Leaves.exists_node {nodes : List Node} (h : Leaves nodes) {x : Element}
    (hx : x ∈ elements 0 0 nodes) :
    Node.leaf x.name x.attributes ∈ nodes ∧ x.children = [] := by
  induction nodes with
  | nil => simp [elements] at hx
  | cons node nodes ih =>
    obtain ⟨name, attributes, rfl, -⟩ := h node List.mem_cons_self
    rw [elements] at hx
    rcases List.mem_cons.1 hx with rfl | hx
    · exact ⟨List.mem_cons_self, rfl⟩
    · obtain ⟨hnode, hchildren⟩ := ih (fun n hn => h n (List.mem_cons_of_mem _ hn)) hx
      exact ⟨List.mem_cons_of_mem _ hnode, hchildren⟩

/-- The elements of leaves are no links and have no children. -/
theorem Leaves.of_mem {nodes : List Node} (h : Leaves nodes) {x : Element}
    (hx : x ∈ elements 0 0 nodes) : x.name ≠ "link-entity" ∧ x.children = [] := by
  obtain ⟨hnode, hchildren⟩ := h.exists_node hx
  obtain ⟨name, attributes, hleaf, hname⟩ := h _ hnode
  cases hleaf
  exact ⟨hname, hchildren⟩

/-- Elements that are no links are contents by themselves. -/
theorem contents_of_not_link {xs : List Element} (h : ∀ x ∈ xs, x.name ≠ "link-entity")
    (owner : Owner) : contents owner xs = xs.map fun x => (owner, x) := by
  induction xs with
  | nil => rw [contents, List.map_nil]
  | cons x xs ih =>
    rw [contents_cons_of_not_link (h x List.mem_cons_self), List.map_cons,
      ih fun y hy => h y (List.mem_cons_of_mem x hy)]

theorem Leaves.contents_eq {nodes : List Node} (h : Leaves nodes) (owner : Owner)
    (indent depth : Nat) :
    contents owner (elements indent depth nodes) =
      (elements 0 0 nodes).map fun x => (owner, x) := by
  rw [h.elements_eq]
  exact contents_of_not_link (fun x hx => (h.of_mem hx).1) owner

/-- What is collected from the elements of nodes, node by node. -/
theorem flatMap_elements_map {α β : Type} (node : α → Node) (f : Element → List β) (as : List α)
    (indent depth : Nat) :
    (elements indent depth (as.map node)).flatMap f =
      as.flatMap fun a => (elements indent depth [node a]).flatMap f := by
  induction as with
  | nil => simp [elements]
  | cons a as ih =>
    rw [List.map_cons, ← List.singleton_append, elements_append, List.flatMap_append, ih,
      List.flatMap_cons]

/-- Select items and grouping columns are written as one tag each. -/
theorem leaf_of_mem_attributeNodes {s : Statement} {owner : Option String} {entity : String}
    {items : List SelectItem} : ∀ n ∈ attributeNodes s owner entity items,
      ∃ name attributes, n = .leaf name attributes ∧
        (name = "attribute" ∨ name = "all-attributes") := by
  intro n hn
  rcases List.mem_append.1 hn with hn | hn
  · obtain ⟨⟨c | call | owner, label⟩, -, rfl⟩ := List.mem_map.1 hn
    · change ∃ name attributes, columnNode s c label = _ ∧ _
      unfold columnNode
      split
      · exact ⟨_, _, rfl, .inl rfl⟩
      · cases label <;> exact ⟨_, _, rfl, .inl rfl⟩
    · exact ⟨_, _, rfl, .inl rfl⟩
    · exact ⟨_, _, rfl, .inr rfl⟩
  · obtain ⟨c, -, rfl⟩ := List.mem_map.1 hn
    exact ⟨_, _, rfl, .inl rfl⟩

theorem leaves_attributeNodes (s : Statement) (owner : Option String) (entity : String)
    (items : List SelectItem) : Leaves (attributeNodes s owner entity items) := by
  intro n hn
  obtain ⟨name, attributes, rfl, hname⟩ := leaf_of_mem_attributeNodes n hn
  refine ⟨name, attributes, rfl, ?_⟩
  rcases hname with rfl | rfl <;> decide

theorem leaves_orderNodes (s : Statement) : Leaves (s.orderBy.map (orderNode s)) := by
  intro n hn
  obtain ⟨item, -, rfl⟩ := List.mem_map.1 hn
  exact ⟨_, _, rfl, by decide⟩

/-- The attribute elements of an entity. -/
def attributeElements (s : Statement) (owner : Option String) (entity : String)
    (items : List SelectItem) : List Element :=
  elements 0 0 (attributeNodes s owner entity items)

theorem name_of_mem_attributeElements {s : Statement} {owner : Option String} {entity : String}
    {items : List SelectItem} {x : Element} (hx : x ∈ attributeElements s owner entity items) :
    x.name = "attribute" ∨ x.name = "all-attributes" := by
  obtain ⟨hnode, -⟩ := (leaves_attributeNodes s owner entity items).exists_node hx
  obtain ⟨name, attributes, hleaf, hname⟩ := leaf_of_mem_attributeNodes _ hnode
  obtain ⟨rfl, -⟩ := Node.leaf.inj hleaf
  exact hname

/-- The order elements of a statement. -/
def orderElements (s : Statement) : List Element :=
  elements 0 0 (s.orderBy.map (orderNode s))

/-! ## Collecting from the contents -/

section Collect

variable {β : Type} (f : Option String → Element → List β) (g : Join → List β) {s : Statement}

/-- The element of a join brings in its entity. -/
theorem linkOwner_linkAttributes (j : Join) (children : List Element) (text : String) :
    linkOwner ⟨"link-entity", linkAttributes j, children, text⟩ = ownerOf j := by
  obtain ⟨entity, label, kind, parent, fromAttribute, toAttribute, items⟩ := j
  cases label <;> cases kind <;> rfl

section Links

variable (hlink : ∀ q j children text, f q ⟨"link-entity", linkAttributes j, children, text⟩ = g j)

include hlink

/-- What is collected from the element of a join: something for the join, what its attributes
give, and what is collected from the links inside it. -/
theorem flatMap_link {indent depth : Nat} (owner : Owner) {j : Join} {links : List Node}
    {below : List β}
    (hbelow : (contents (ownerOf j) (elements indent (depth + 1) links)).flatMap
      (fun p => f p.1.qualifier p.2) = below) :
    let children := attributeNodes s (some j.qualifier) j.entity j.items ++ links
    (contents owner (elements indent depth
        [if children.isEmpty then .leaf "link-entity" (linkAttributes j)
          else .branch "link-entity" (linkAttributes j) children])).flatMap
        (fun p => f p.1.qualifier p.2) =
      g j ++ (attributeElements s (some j.qualifier) j.entity j.items).flatMap
        (f (some j.qualifier)) ++ below := by
  intro children
  obtain ⟨text, helement⟩ := exists_linkElement indent depth (linkAttributes j) children
  rw [helement, contents_cons_of_link rfl, linkOwner_linkAttributes, elements_append,
    contents_append, (leaves_attributeNodes _ _ _ _).contents_eq, contents, List.append_nil,
    List.flatMap_cons, List.flatMap_append, hbelow, hlink, List.flatMap_map, List.append_assoc]
  rfl

theorem flatMap_linkNodes (indent levels depth : Nat) (owner : Owner) :
    (contents owner (elements indent depth (linkNodes s levels owner.qualifier))).flatMap
        (fun p => f p.1.qualifier p.2) =
      (preorder s.joins levels owner.qualifier).flatMap fun j =>
        g j ++ (attributeElements s (some j.qualifier) j.entity j.items).flatMap
          (f (some j.qualifier)) := by
  induction levels generalizing owner depth with
  | zero => simp [preorder, linkNodes, elements, contents]
  | succ levels ih =>
    rw [preorder, linkNodes, ← childrenOf]
    -- siblings are written from left to right
    induction childrenOf s.joins owner.qualifier with
    | nil => simp [elements, contents]
    | cons j children ihc =>
      have hfirst := flatMap_link f g hlink (s := s) owner (ih (depth + 1) (ownerOf j))
      rw [List.map_cons, ← List.singleton_append, elements_append, contents_append,
        List.flatMap_append, ihc, List.flatMap_cons, List.flatMap_append, List.flatMap_cons]
      exact congrArg (· ++ _) hfirst

end Links

/-- The entity element of a written document. -/
structure IsEntityOf (s : Statement) (indent : Nat) (entity : Element) : Prop where
  tag : entity.name = "entity"
  name : entity.attr? "name" = some s.source.entity
  children_eq : entity.children = elements indent 2
    (attributeNodes s none s.source.entity s.items ++ s.orderBy.map (orderNode s) ++
      filterNodes s ++ linkNodes s s.joins.length none)

theorem exists_isEntityOf (s : Statement) (indent : Nat) : ∃ entity,
    (rootElement indent "fetch" (fetchAttributes s) [entityNode s]).children = [entity] ∧
      IsEntityOf s indent entity := by
  rw [rootElement, entityNode, elements_branch]
  exact ⟨_, rfl, ⟨rfl, rfl, rfl⟩⟩

theorem IsEntityOf.childrenNamed {s : Statement} {indent : Nat} {entity root : Element}
    (h : IsEntityOf s indent entity) (hroot : root.children = [entity]) :
    root.childrenNamed "entity" = [entity] := by
  rw [Element.childrenNamed, hroot, List.filter_cons_of_pos (by simpa using h.tag), List.filter_nil]

theorem name_of_mem_filterNodes {s : Statement} {indent depth : Nat} {x : Element}
    (hx : x ∈ elements indent depth (filterNodes s)) : x.name = "filter" := by
  rw [filterNodes] at hx
  split at hx
  · next e _ =>
    obtain ⟨op, children, hgroup⟩ : ∃ op children, Filter.ofCondition e = .group op children := by
      rw [Filter.ofCondition]
      split <;> exact ⟨_, _, rfl⟩
    rw [hgroup, Filter.node, elements_branch, List.mem_singleton] at hx
    rw [hx]
  · simp [elements] at hx

/-- What is collected from the contents of a written document. -/
theorem flatMap_entityContents
    (hlink : ∀ q j children text, f q ⟨"link-entity", linkAttributes j, children, text⟩ = g j)
    {indent : Nat} (hfilter : ∀ x ∈ elements indent 2 (filterNodes s), f none x = [])
    {entity : Element} (hentity : IsEntityOf s indent entity) :
    (entityContents entity).flatMap (fun p => f p.1.qualifier p.2) =
      (attributeElements s none s.source.entity s.items).flatMap (f none) ++
        (orderElements s).flatMap (f none) ++
        (nestedJoins s).flatMap fun j =>
          g j ++ (attributeElements s (some j.qualifier) j.entity j.items).flatMap
            (f (some j.qualifier)) := by
  have hlinks := flatMap_linkNodes f g hlink indent s.joins.length 2 (rootOwner entity) (s := s)
  have hfilters : (contents (rootOwner entity) (elements indent 2 (filterNodes s))).flatMap
      (fun p => f p.1.qualifier p.2) = [] := by
    rw [contents_of_not_link fun x hx => by rw [name_of_mem_filterNodes hx]; decide,
      List.flatMap_map, List.flatMap_eq_nil_iff]
    exact hfilter
  rw [entityContents, hentity.children_eq, elements_append, elements_append, elements_append,
    contents_append, contents_append, contents_append, List.flatMap_append, List.flatMap_append,
    List.flatMap_append, hfilters, List.append_nil, (leaves_attributeNodes _ _ _ _).contents_eq,
    (leaves_orderNodes s).contents_eq, List.flatMap_map, List.flatMap_map]
  congr 1

end Collect

/-! ## The entities in the order they are written -/

/-- The entities of a statement with their items, in the order they are written. -/
def writtenHolders (s : Statement) : List Holder :=
  ⟨none, s.source.entity, s.items⟩ ::
    (nestedJoins s).map fun j => ⟨some j.qualifier, j.entity, j.items⟩

theorem writtenHolders_perm {s : Statement} (hs : s.WellBound) :
    (writtenHolders s).Perm s.holders :=
  ((preorder_perm hs.isForest).map _).cons _

/-- What only attribute elements give is collected entity by entity. -/
theorem flatMap_attributes {β : Type} {f : Option String → Element → List β}
    (hother : ∀ q x, x.name ≠ "attribute" → f q x = []) {s : Statement} {indent : Nat}
    {entity : Element} (hentity : IsEntityOf s indent entity) :
    (entityContents entity).flatMap (fun p => f p.1.qualifier p.2) =
      (writtenHolders s).flatMap fun h =>
        (attributeElements s h.owner h.entity h.items).flatMap (f h.owner) := by
  have hlink : ∀ q j children text,
      f q ⟨"link-entity", linkAttributes j, children, text⟩ = (fun _ => []) j :=
    fun q j children text => hother q _ (by simp)
  -- orders, filters and links give nothing
  have horders : (orderElements s).flatMap (f none) = [] := by
    rw [orderElements, flatMap_elements_map, List.flatMap_eq_nil_iff]
    intro item _
    rw [orderNode, elements_leaf, List.flatMap_singleton]
    exact hother none _ (by simp)
  rw [flatMap_entityContents f (fun _ => []) hlink
    (fun x hx => hother none x (by rw [name_of_mem_filterNodes hx]; decide)) hentity, horders,
    List.append_nil, writtenHolders, List.flatMap_cons, List.flatMap_map]
  rfl

/-- What only order elements give is collected from the sort columns. -/
theorem flatMap_orders {β : Type} {f : Option String → Element → List β}
    (hother : ∀ q x, x.name ≠ "order" → f q x = []) {s : Statement} {indent : Nat}
    {entity : Element} (hentity : IsEntityOf s indent entity) :
    (entityContents entity).flatMap (fun p => f p.1.qualifier p.2) =
      (orderElements s).flatMap (f none) := by
  have hlink : ∀ q j children text,
      f q ⟨"link-entity", linkAttributes j, children, text⟩ = (fun _ => []) j :=
    fun q j children text => hother q _ (by simp)
  have hattributes : ∀ q owner name items,
      (attributeElements s owner name items).flatMap (f q) = [] := by
    intro q owner name items
    rw [List.flatMap_eq_nil_iff]
    intro x hx
    apply hother
    rcases name_of_mem_attributeElements hx with hname | hname <;> rw [hname] <;> decide
  rw [flatMap_entityContents f (fun _ => []) hlink
    (fun x hx => hother none x (by rw [name_of_mem_filterNodes hx]; decide)) hentity, hattributes,
    List.nil_append]
  simp [hattributes]

/-- The qualifiers of the links are those of the joins. -/
theorem linkQualifiers_written {s : Statement} {indent : Nat} {entity : Element}
    (hentity : IsEntityOf s indent entity) :
    linkQualifiers entity = (nestedJoins s).map Join.qualifier := by
  let f (_ : Option String) (x : Element) : List String :=
    (if x.name = "link-entity" then (linkOwner x).qualifier else none).toList
  have hother : ∀ q x, x.name ≠ "link-entity" → f q x = [] := by
    intro q x hx
    simp [f, hx]
  have hlink : ∀ q j children text, f q ⟨"link-entity", linkAttributes j, children, text⟩ =
      [j.qualifier] := by
    intro q j children text
    simp [f, linkOwner_linkAttributes, ownerOf]
  have hleaves : ∀ {nodes : List Node}, Leaves nodes → ∀ q,
      (elements 0 0 nodes).flatMap (f q) = [] := by
    intro nodes hnodes q
    rw [List.flatMap_eq_nil_iff]
    exact fun x hx => hother q x (hnodes.of_mem hx).1
  rw [linkQualifiers, List.filterMap_eq_flatMap_toList]
  refine (flatMap_entityContents f (fun j => [j.qualifier]) hlink
    (fun x hx => hother none x (by rw [name_of_mem_filterNodes hx]; decide)) hentity).trans ?_
  simp only [attributeElements, orderElements, hleaves (leaves_attributeNodes _ _ _ _),
    hleaves (leaves_orderNodes s), List.nil_append, List.append_nil, ← List.map_eq_flatMap]

/-! ## What attribute elements show -/

/-- The attribute that a select value shows, with the function that is applied to it. A wildcard
shows no single attribute. -/
def shownBy? (entity : String) :
    SelectValue → Option (String × Option AggregateFunction)
  | .column c => some (c.name, none)
  | .aggregate call => some (call.attributeName entity, some call.function)
  | .wildcard _ => none

/-- The element of an item has the label of its result column. -/
theorem exists_itemElement {s : Statement} (hs : s.Writable) {h : Holder} (hh : h ∈ s.holders)
    {item : SelectItem} (hitem : item ∈ h.items) :
    ∃ x, elements 0 0 [itemNode s h.entity item] = [x] ∧
      (x.name = "all-attributes" ∧ shownBy? h.entity item.value = none ∧
          item.resultLabel? s.isAggregate h.entity = none ∨
        x.name = "attribute" ∧ x.attr? "alias" = item.resultLabel? s.isAggregate h.entity ∧
          ∃ name function, shownBy? h.entity item.value = some (name, function) ∧
            x.attr? "name" = some name ∧
            x.attr? "aggregate" = function.map AggregateFunction.fetch) := by
  have hmem := Statement.mem_allItems.2 ⟨h, hh, hitem⟩
  obtain ⟨value, label⟩ := item
  cases value with
  | wildcard owner =>
    obtain rfl : label = none := hs.wildcard_unlabelled _ hmem owner rfl
    exact ⟨_, elements_leaf .., .inl ⟨rfl, rfl, rfl⟩⟩
  | aggregate call =>
    refine ⟨_, elements_leaf .., .inr ⟨rfl, ?_, _, _, rfl, rfl, rfl⟩⟩
    cases label <;> rfl
  | column c =>
    cases haggregate : s.isAggregate with
    | false =>
      have hnode : itemNode s h.entity ⟨.column c, label⟩ = _ :=
        columnNode_of_plain haggregate c label
      rw [hnode]
      refine ⟨_, elements_leaf .., .inr ⟨rfl, ?_, _, _, rfl, ?_, ?_⟩⟩ <;> cases label <;> rfl
    | true =>
      have hnode : itemNode s h.entity ⟨.column c, label⟩ = _ :=
        columnNode_of_grouped ((hs.grouped haggregate _ hmem).2 c rfl) label
      rw [hnode]
      refine ⟨_, elements_leaf .., .inr ⟨rfl, ?_, _, _, rfl, rfl, rfl⟩⟩
      cases label <;> rfl

end FetchQuery.Fetch
