import FetchQuery.Proofs.Fetch.DocumentLayout
import FetchQuery.Proofs.Fetch.ResultAliases

/-!
# The strings in a written document

A written document is, once it is bare, the tree of the nodes it was written from, whatever the
indentation (`bare_rootElement`). The strings in it come from the statement: `stringsFor` lists
those that an attribute may hold by its key, and no part of a document holds any other
(`spells_of_mem`). The values are the texts that the condition of the statement compares with, all
of them and in their order (`valuesIn_fetchNode`).
-/

set_option autoImplicit false

namespace FetchQuery

open Xml
open Xml.Node (elements elements_append elements_leaf elements_branch elements_map_text blanks
  rootElement)

/-! ## The strings of a statement -/

namespace Statement

/-- The columns that a statement names, those inside aggregate calls apart. -/
def columns (s : Statement) : List ColumnRef :=
  (s.allItems.filterMap fun item =>
    match item.value with
    | .column c => some c
    | _ => none) ++
    s.condition.toList.flatMap Condition.columns ++ s.groupBy ++ s.orderBy.map OrderItem.column

/-- The aggregate calls of a statement, each with the name of its entity. -/
def calls (s : Statement) : List (String × AggregateCall) :=
  s.holders.flatMap fun h => h.items.filterMap fun item =>
    match item.value with
    | .aggregate call => some (h.entity, call)
    | _ => none

/-- The labels that a statement gives to its items and joins. -/
def labels (s : Statement) : List String :=
  s.allItems.filterMap SelectItem.label ++ s.joins.filterMap Join.label

end Statement

namespace Fetch

/-- The words that FetchXML has for flags, operators and modes. -/
def formatWords : List String :=
  ["true", "false", "inner", "outer", "and", "or", "count", "sum", "avg", "min", "max", "eq", "ne",
    "lt", "le", "gt", "ge", "null", "not-null", "in", "not-in", "between", "not-between", "like",
    "not-like"]

/-- The strings that a statement has for the attributes with a key. An attribute that is not
taken from the statement holds a word of the format. -/
def stringsFor (s : Statement) (key : String) : List String :=
  match key with
  | "top" => s.top.toList.map rowCountText
  | "name" =>
    s.holders.map Holder.entity ++ s.columns.map ColumnRef.name ++
      s.calls.map fun p => p.2.attributeName p.1
  | "alias" =>
    s.labels ++ s.columns.map ColumnRef.name ++ s.calls.map fun p => p.2.defaultLabel p.1
  | "entityname" => s.columns.filterMap ColumnRef.qualifier
  | "attribute" => s.columns.map ColumnRef.name
  -- a link is named from the side of the joined entity
  | "from" => s.joins.map Join.toAttribute
  | "to" => s.joins.map Join.fromAttribute
  | "value" => (s.condition.toList.flatMap Condition.tests).flatMap fun p => p.2.texts
  | _ => formatWords

/-- Attributes whose values are strings that a statement has for their keys. -/
def Spelt (s : Statement) (attributes : List (String × String)) : Prop :=
  ∀ a ∈ attributes, a.2 ∈ stringsFor s a.1

/-- An element whose attributes are spelt by a statement, and its text too if it is a value. -/
def Spells (s : Statement) (x : Element) : Prop :=
  Spelt s x.attributes ∧ (x.name = "value" → x.text ∈ stringsFor s "value")

/-- Nodes for elements that a statement spells, where the values are the nodes with text. -/
def SpeltNodes (s : Statement) : List Node → Prop
  | [] => True
  | .comment _ :: nodes => SpeltNodes s nodes
  | .leaf name attributes :: nodes => name ≠ "value" ∧ Spelt s attributes ∧ SpeltNodes s nodes
  | .text name content :: nodes =>
    name = "value" ∧ content ∈ stringsFor s "value" ∧ SpeltNodes s nodes
  | .branch name attributes children :: nodes =>
    name ≠ "value" ∧ Spelt s attributes ∧ SpeltNodes s children ∧ SpeltNodes s nodes

section Spelling

variable {s : Statement}

theorem spelt_nil : Spelt s [] := fun _ ha => absurd ha List.not_mem_nil

theorem spelt_cons {key value : String} {attributes : List (String × String)}
    (h : value ∈ stringsFor s key) (hrest : Spelt s attributes) :
    Spelt s ((key, value) :: attributes) :=
  List.forall_mem_cons.2 ⟨h, hrest⟩

theorem spelt_append {xs ys : List (String × String)} (hxs : Spelt s xs) (hys : Spelt s ys) :
    Spelt s (xs ++ ys) :=
  List.forall_mem_append.2 ⟨hxs, hys⟩

/-! ### Written elements -/

theorem speltNodes_append {xs ys : List Node} (hxs : SpeltNodes s xs) (hys : SpeltNodes s ys) :
    SpeltNodes s (xs ++ ys) := by
  induction xs with
  | nil => exact hys
  | cons x xs ih => cases x <;> simp_all [SpeltNodes]

theorem speltNodes_map {α : Type} {node : α → Node} {as : List α}
    (h : ∀ a ∈ as, SpeltNodes s [node a]) : SpeltNodes s (as.map node) :=
  Node.map_of_append (by simp [SpeltNodes]) speltNodes_append h

theorem speltNodes_leaf {name : String} {attributes : List (String × String)}
    (hname : name ≠ "value") (h : Spelt s attributes) : SpeltNodes s [.leaf name attributes] := by
  simpa [SpeltNodes] using ⟨hname, h⟩

theorem speltNodes_branch {name : String} {attributes : List (String × String)}
    {children : List Node} (hname : name ≠ "value") (h : Spelt s attributes)
    (hchildren : SpeltNodes s children) : SpeltNodes s [.branch name attributes children] := by
  simpa [SpeltNodes] using ⟨hname, h, hchildren⟩

theorem blanks_zero (depth : Nat) (nodes : List Node) : blanks 0 depth nodes = "" := by
  induction nodes with
  | nil => rfl
  | cons node nodes ih =>
    rw [blanks, ih]
    rfl

/-- Induction along nodes that follow each other, and into the children of branches. -/
theorem nodes_induction {P : List Node → Prop} (nil : P [])
    (comment : ∀ body nodes, P nodes → P (.comment body :: nodes))
    (leaf : ∀ name attributes nodes, P nodes → P (.leaf name attributes :: nodes))
    (text : ∀ name content nodes, P nodes → P (.text name content :: nodes))
    (branch : ∀ name attributes children nodes, P children → P nodes →
      P (.branch name attributes children :: nodes)) : ∀ nodes, P nodes
  | [] => nil
  | .comment body :: nodes =>
    comment body nodes (nodes_induction nil comment leaf text branch nodes)
  | .leaf name attributes :: nodes =>
    leaf name attributes nodes (nodes_induction nil comment leaf text branch nodes)
  | .text name content :: nodes =>
    text name content nodes (nodes_induction nil comment leaf text branch nodes)
  | .branch name attributes children :: nodes =>
    branch name attributes children nodes (nodes_induction nil comment leaf text branch children)
      (nodes_induction nil comment leaf text branch nodes)

/-- Without layout, the elements that nodes stand for are those without indentation. -/
theorem bareAll_elements {nodes : List Node} (h : SpeltNodes s nodes)
    (indent depth depth' : Nat) :
    bareAll (elements indent depth nodes) = elements 0 depth' nodes := by
  induction nodes using nodes_induction generalizing depth depth' with
  | nil => rw [elements, elements, bareAll]
  | comment body nodes ih =>
    rw [SpeltNodes] at h
    rw [elements, elements, ih h]
  | leaf name attributes nodes ih =>
    rw [SpeltNodes] at h
    rw [elements, elements, bareAll, bare, bareAll, if_neg h.1, ih h.2.2 depth depth']
  | text name content nodes ih =>
    rw [SpeltNodes] at h
    rw [elements, elements, bareAll, bare, bareAll, if_pos h.1, ih h.2.2 depth depth']
  | branch name attributes children nodes ihchildren ih =>
    rw [SpeltNodes] at h
    obtain ⟨hname, -, hchildren, hnodes⟩ := h
    -- indentation goes into the text of branches only, and no branch is a value
    rw [elements, elements, bareAll, bare, if_neg hname,
      ihchildren hchildren (depth + 1) (depth' + 1), ih hnodes depth depth', blanks_zero]
    rfl

/-- Every element of spelt nodes is spelt. -/
theorem spells_of_mem {nodes : List Node} (h : SpeltNodes s nodes) (indent depth : Nat) :
    ∀ x ∈ descendantsAmong (elements indent depth nodes), Spells s x := by
  induction nodes using nodes_induction generalizing depth with
  | nil => simp [elements, descendantsAmong]
  | comment body nodes ih =>
    rw [SpeltNodes] at h
    rw [elements]
    exact ih h depth
  | leaf name attributes nodes ih =>
    rw [SpeltNodes] at h
    obtain ⟨hname, hattributes, hnodes⟩ := h
    rw [elements, descendantsAmong, descendants, descendantsAmong, List.nil_append]
    exact List.forall_mem_cons.2 ⟨⟨hattributes, fun hvalue => absurd hvalue hname⟩, ih hnodes depth⟩
  | text name content nodes ih =>
    rw [SpeltNodes] at h
    obtain ⟨-, hcontent, hnodes⟩ := h
    rw [elements, descendantsAmong, descendants, descendantsAmong, List.nil_append]
    exact List.forall_mem_cons.2 ⟨⟨spelt_nil, fun _ => hcontent⟩, ih hnodes depth⟩
  | branch name attributes children nodes ihchildren ih =>
    rw [SpeltNodes] at h
    obtain ⟨hname, hattributes, hchildren, hnodes⟩ := h
    rw [elements, descendantsAmong, descendants]
    refine List.forall_mem_cons.2 ⟨⟨hattributes, fun hvalue => absurd hvalue hname⟩, ?_⟩
    exact List.forall_mem_append.2 ⟨ihchildren hchildren (depth + 1), ih hnodes depth⟩

/-! ### The strings of every part -/

theorem column_mem_columns {item : SelectItem} (hitem : item ∈ s.allItems) {c : ColumnRef}
    (hc : item.value = .column c) : c ∈ s.columns := by
  have hmem : c ∈ s.allItems.filterMap fun item =>
      match item.value with
      | .column c => some c
      | _ => none :=
    List.mem_filterMap.2 ⟨item, hitem, by rw [hc]⟩
  exact List.mem_append_left _ (List.mem_append_left _ (List.mem_append_left _ hmem))

theorem groupBy_mem_columns {c : ColumnRef} (hc : c ∈ s.groupBy) : c ∈ s.columns :=
  List.mem_append_left _ (List.mem_append_right _ hc)

theorem orderBy_mem_columns {item : OrderItem} (hitem : item ∈ s.orderBy) :
    item.column ∈ s.columns :=
  List.mem_append_right _ (List.mem_map_of_mem hitem)

theorem call_mem_calls {h : Holder} (hh : h ∈ s.holders) {item : SelectItem}
    (hitem : item ∈ h.items) {call : AggregateCall} (hcall : item.value = .aggregate call) :
    (h.entity, call) ∈ s.calls :=
  List.mem_flatMap.2 ⟨h, hh, List.mem_filterMap.2 ⟨item, hitem, by rw [hcall]⟩⟩

theorem label_mem_labels {item : SelectItem} (hitem : item ∈ s.allItems) {label : String}
    (hlabel : item.label = some label) : label ∈ s.labels :=
  List.mem_append_left _ (List.mem_filterMap.2 ⟨item, hitem, hlabel⟩)

theorem name_mem_names {c : ColumnRef} (hc : c ∈ s.columns) : c.name ∈ stringsFor s "name" :=
  List.mem_append_left _ (List.mem_append_right _ (List.mem_map_of_mem hc))

theorem name_mem_aliases {c : ColumnRef} (hc : c ∈ s.columns) : c.name ∈ stringsFor s "alias" :=
  List.mem_append_left _ (List.mem_append_right _ (List.mem_map_of_mem hc))

theorem label_mem_aliases {label : String} (h : label ∈ s.labels) :
    label ∈ stringsFor s "alias" :=
  List.mem_append_left _ (List.mem_append_left _ h)

theorem spelt_flag {key : String} (h : stringsFor s key = formatWords) (set : Bool) :
    Spelt s (if set then [(key, "true")] else []) := by
  cases set with
  | false => exact spelt_nil
  | true => exact spelt_cons (h ▸ by decide) spelt_nil

theorem spelt_fetchAttributes (s : Statement) : Spelt s (fetchAttributes s) := by
  refine spelt_append (spelt_append ?_ (spelt_flag rfl s.isAggregate)) (spelt_flag rfl s.distinct)
  cases htop : s.top with
  | none => exact spelt_nil
  | some n =>
    have hmem : rowCountText n ∈ s.top.toList.map rowCountText := by simp [htop]
    exact spelt_cons hmem spelt_nil

theorem speltNodes_groupedNode {c : ColumnRef} (hc : c ∈ s.columns) {label : String}
    (hlabel : label ∈ stringsFor s "alias") : SpeltNodes s [groupedNode c.name label] := by
  refine speltNodes_leaf (by decide) (spelt_cons (name_mem_names hc) (spelt_cons hlabel ?_))
  exact spelt_flag rfl true

theorem getD_label_mem {item : SelectItem} (hitem : item ∈ s.allItems) {default : String}
    (hdefault : default ∈ stringsFor s "alias") :
    item.label.getD default ∈ stringsFor s "alias" := by
  cases hlabel : item.label with
  | none => exact hdefault
  | some label => exact label_mem_aliases (label_mem_labels hitem hlabel)

theorem speltNodes_itemNode {h : Holder} (hh : h ∈ s.holders) {item : SelectItem}
    (hitem : item ∈ h.items) : SpeltNodes s [itemNode s h.entity item] := by
  have hall : item ∈ s.allItems := Statement.mem_allItems.2 ⟨h, hh, hitem⟩
  rw [itemNode]
  cases hvalue : item.value with
  | wildcard owner => exact speltNodes_leaf (by decide) spelt_nil
  | column c =>
    have hc := column_mem_columns hall hvalue
    dsimp only
    unfold columnNode
    split
    · exact speltNodes_groupedNode hc (getD_label_mem hall (name_mem_aliases hc))
    · cases hlabel : item.label with
      | none => exact speltNodes_leaf (by decide) (spelt_cons (name_mem_names hc) spelt_nil)
      | some label =>
        have halias := label_mem_aliases (label_mem_labels hall hlabel)
        refine speltNodes_leaf (by decide) (spelt_cons (name_mem_names hc) ?_)
        exact spelt_cons halias spelt_nil
  | aggregate call =>
    have hcall := call_mem_calls hh hitem hvalue
    refine speltNodes_leaf (by decide) (spelt_append ?_ (spelt_flag rfl call.distinct))
    refine spelt_cons (List.mem_append_right _ (List.mem_map_of_mem hcall)) (spelt_cons ?_ ?_)
    · exact getD_label_mem hall (List.mem_append_right _ (List.mem_map_of_mem hcall))
    · refine spelt_cons ?_ spelt_nil
      change call.function.fetch ∈ formatWords
      cases call.function <;> decide

theorem speltNodes_attributeNodes {h : Holder} (hh : h ∈ s.holders) :
    SpeltNodes s (attributeNodes s h.owner h.entity h.items) := by
  refine speltNodes_append (speltNodes_map fun item hitem => speltNodes_itemNode hh hitem) ?_
  apply speltNodes_map
  intro c hc
  have hcolumn := groupBy_mem_columns (List.mem_of_mem_filter (List.mem_of_mem_filter hc))
  exact speltNodes_groupedNode hcolumn (name_mem_aliases hcolumn)

theorem spelt_sortColumn {c : ColumnRef} (hc : c ∈ s.columns) :
    Spelt s (SortKey.column c.qualifier c.name).attributes := by
  have hname : c.name ∈ stringsFor s "attribute" := List.mem_map_of_mem hc
  cases hqualifier : c.qualifier with
  | none => exact spelt_cons hname spelt_nil
  | some q =>
    exact spelt_cons (List.mem_filterMap.2 ⟨c, hc, hqualifier⟩) (spelt_cons hname spelt_nil)

theorem spelt_sortKey {item : OrderItem} (hitem : item ∈ s.orderBy) :
    Spelt s (SortKey.ofOrder s item).attributes := by
  have hcolumn := orderBy_mem_columns hitem
  have hname := name_mem_aliases hcolumn
  have hown : Spelt s (SortKey.ofColumn s item.column).attributes := by
    rw [SortKey.ofColumn]
    split
    · refine spelt_cons ?_ spelt_nil
      cases hfind : s.allItems.find? fun selected => selected.selects item.column with
      | none => exact hname
      | some selected => exact getD_label_mem (List.mem_of_find?_eq_some hfind) hname
    · exact spelt_sortColumn hcolumn
  rw [SortKey.ofOrder]
  split
  · -- a label is followed to the column that it stands for
    next selected hqualifier hlabelled =>
    rw [SortKey.ofLabelled]
    split
    · next c hvalue =>
      split
      · exact spelt_cons hname spelt_nil
      · exact spelt_sortColumn (column_mem_columns (List.mem_of_find?_eq_some hlabelled) hvalue)
    · exact spelt_cons hname spelt_nil
  · exact hown

theorem speltNodes_orderNode {item : OrderItem} (hitem : item ∈ s.orderBy) :
    SpeltNodes s [orderNode s item] := by
  refine speltNodes_leaf (by decide) (spelt_append (spelt_sortKey hitem) (spelt_cons ?_ spelt_nil))
  change _ ∈ formatWords
  cases item.direction <;> decide

theorem spelt_linkAttributes {j : Join} (hj : j ∈ s.joins) : Spelt s (linkAttributes j) := by
  have hentity : j.entity ∈ stringsFor s "name" :=
    List.mem_append_left _ (List.mem_append_left _
      (List.mem_map_of_mem (f := Holder.entity) (Statement.join_mem_holders hj)))
  refine spelt_append ?_ ?_
  · refine spelt_cons hentity (spelt_cons (List.mem_map_of_mem hj)
      (spelt_cons (List.mem_map_of_mem hj) (spelt_cons ?_ spelt_nil)))
    change j.kind.fetch ∈ formatWords
    cases j.kind <;> decide
  · cases hlabel : j.label with
    | none => exact spelt_nil
    | some label =>
      have hmem : label ∈ s.joins.filterMap Join.label := List.mem_filterMap.2 ⟨j, hj, hlabel⟩
      exact spelt_cons (label_mem_aliases (List.mem_append_right _ hmem)) spelt_nil

theorem speltNodes_linkNodes (levels : Nat) (owner : Option String) :
    SpeltNodes s (linkNodes s levels owner) := by
  induction levels generalizing owner with
  | zero => simp [linkNodes, SpeltNodes]
  | succ levels ih =>
    rw [linkNodes]
    apply speltNodes_map
    intro j hj
    have hj : j ∈ s.joins := List.mem_of_mem_filter hj
    -- a link without children is written as an empty element
    dsimp only
    split
    · exact speltNodes_leaf (by decide) (spelt_linkAttributes hj)
    · refine speltNodes_branch (by decide) (spelt_linkAttributes hj) (speltNodes_append ?_ (ih _))
      exact speltNodes_attributeNodes (Statement.join_mem_holders hj)

/-! ### Filters -/

/-- A single condition whose column and values are those of a statement. -/
def SpeltLeaf (s : Statement) (leaf : ColumnRef × FilterValues) : Prop :=
  leaf.1 ∈ s.columns ∧ ∀ text ∈ leaf.2.texts, text ∈ stringsFor s "value"

theorem speltLeaf_of_mem {e : Condition} (he : s.condition = some e) {p : ColumnRef × Test}
    (hp : p ∈ e.tests) : SpeltLeaf s (p.1, valuesOf p.2) := by
  have hcolumn : p.1 ∈ s.condition.toList.flatMap Condition.columns := by
    rw [he, Option.toList, List.flatMap_singleton]
    exact List.mem_map_of_mem hp
  refine ⟨List.mem_append_left _ (List.mem_append_left _ (List.mem_append_right _ hcolumn)), ?_⟩
  intro text htext
  rw [texts_valuesOf] at htext
  change text ∈ (s.condition.toList.flatMap Condition.tests).flatMap _
  rw [he, Option.toList, List.flatMap_singleton]
  exact List.mem_flatMap.2 ⟨p, hp, htext⟩

theorem spelt_conditionAttributes {c : ColumnRef} (hc : c ∈ s.columns) (operator : FilterOperator) :
    Spelt s (Filter.conditionAttributes c operator) := by
  have hoperator : operator.name ∈ formatWords := by
    rcases operator with ⟨_ | _⟩ | _ <;> decide
  have hbehind : Spelt s [("attribute", c.name), ("operator", operator.name)] :=
    spelt_cons (List.mem_map_of_mem hc) (spelt_cons hoperator spelt_nil)
  rw [Filter.conditionAttributes]
  cases hqualifier : c.qualifier with
  | none => exact hbehind
  | some q => exact spelt_cons (List.mem_filterMap.2 ⟨c, hc, hqualifier⟩) hbehind

theorem speltNodes_condition {c : ColumnRef} (operator : FilterOperator) {values : FilterValues}
    (h : SpeltLeaf s (c, values)) : SpeltNodes s [(Filter.condition c operator values).node] := by
  obtain ⟨hcolumn, htexts⟩ := h
  have hattributes := spelt_conditionAttributes hcolumn operator
  cases values with
  | none => exact speltNodes_leaf (by decide) hattributes
  | single value =>
    refine speltNodes_leaf (by decide) (spelt_append hattributes (spelt_cons ?_ spelt_nil))
    exact htexts value List.mem_cons_self
  | list texts =>
    refine speltNodes_branch (by decide) hattributes (speltNodes_map fun text htext => ?_)
    simpa [SpeltNodes] using htexts text htext

mutual

theorem speltNodes_node : ∀ f : Filter, (∀ leaf ∈ f.leaves, SpeltLeaf s leaf) →
    SpeltNodes s [f.node]
  | .condition column operator values, h =>
    speltNodes_condition operator (h (column, values) List.mem_cons_self)
  | .group op children, h => by
    rw [Filter.node]
    refine speltNodes_branch (by decide) (spelt_cons ?_ spelt_nil) (speltNodes_nodes children h)
    change op.fetch ∈ formatWords
    cases op <;> decide

theorem speltNodes_nodes : ∀ fs : List Filter, (∀ leaf ∈ Filter.leavesAll fs, SpeltLeaf s leaf) →
    SpeltNodes s (Filter.nodes fs)
  | [], _ => by simp [Filter.nodes, SpeltNodes]
  | f :: fs, h => by
    rw [Filter.leavesAll, List.forall_mem_append] at h
    rw [Filter.nodes, ← List.singleton_append]
    exact speltNodes_append (speltNodes_node f h.1) (speltNodes_nodes fs h.2)

end

theorem leaves_ofCondition (e : Condition) :
    (Filter.ofCondition e).leaves = e.tests.map fun p => (p.1, valuesOf p.2) := by
  rw [← Filter.leaves_lower e false, Filter.ofCondition]
  cases Filter.lower e false with
  | group op children => rfl
  | condition column operator values => rfl

theorem speltNodes_filterNodes (s : Statement) : SpeltNodes s (filterNodes s) := by
  rw [filterNodes]
  split
  · next e he =>
    apply speltNodes_node
    rw [leaves_ofCondition, List.forall_mem_map]
    exact fun p hp => speltLeaf_of_mem he hp
  · simp [SpeltNodes]

/-! ### The values in their order -/

/-- The value that an attribute states. -/
def valueOf? (a : String × String) : Option String :=
  if a.1 = "value" then some a.2 else none

/-- The values that an element states, in its attributes or as its text. -/
def shownValues (x : Element) : List String :=
  x.attributes.filterMap valueOf? ++ if x.name = "value" then [x.text] else []

/-- The values in the elements that nodes stand for, in document order. -/
def valuesIn (indent depth : Nat) (nodes : List Node) : List String :=
  (descendantsAmong (elements indent depth nodes)).flatMap shownValues

section Values

variable {indent depth : Nat}

theorem valuesIn_nil : valuesIn indent depth [] = [] := by
  simp [valuesIn, elements, descendantsAmong]

theorem valuesIn_append (xs ys : List Node) :
    valuesIn indent depth (xs ++ ys) = valuesIn indent depth xs ++ valuesIn indent depth ys := by
  rw [valuesIn, elements_append, descendantsAmong_append, List.flatMap_append, valuesIn, valuesIn]

theorem valuesIn_map {α : Type} (node : α → Node) (as : List α) :
    valuesIn indent depth (as.map node) = as.flatMap fun a => valuesIn indent depth [node a] := by
  induction as with
  | nil => exact valuesIn_nil
  | cons a as ih =>
    rw [List.map_cons, ← List.singleton_append, valuesIn_append, ih, List.flatMap_cons]

theorem valuesIn_leaf {name : String} (hname : name ≠ "value")
    (attributes : List (String × String)) :
    valuesIn indent depth [.leaf name attributes] = attributes.filterMap valueOf? := by
  rw [valuesIn, elements_leaf]
  simp [descendantsAmong, descendants, shownValues, hname]

theorem valuesIn_branch {name : String} (hname : name ≠ "value")
    (attributes : List (String × String)) (children : List Node) :
    valuesIn indent depth [.branch name attributes children] =
      attributes.filterMap valueOf? ++ valuesIn indent (depth + 1) children := by
  rw [valuesIn, elements_branch]
  simp [descendantsAmong, descendants, shownValues, hname, valuesIn]

theorem valuesIn_texts (texts : List String) :
    valuesIn indent depth (texts.map (Node.text "value")) = texts := by
  rw [valuesIn, elements_map_text]
  induction texts with
  | nil => simp [descendantsAmong]
  | cons text texts ih =>
    rw [List.map_cons, descendantsAmong, descendants, descendantsAmong, List.nil_append,
      List.flatMap_cons, ih]
    simp [shownValues]

theorem valuesIn_attributeNodes (s : Statement) (owner : Option String) (entity : String)
    (items : List SelectItem) :
    valuesIn indent depth (attributeNodes s owner entity items) = [] := by
  have hgrouped : ∀ name label, valuesIn indent depth [groupedNode name label] = [] := by
    intro name label
    rw [groupedNode, valuesIn_leaf (by decide)]
    simp [valueOf?]
  have hitem : ∀ item, valuesIn indent depth [itemNode s entity item] = [] := by
    rintro ⟨c | call | owner, label⟩
    · change valuesIn indent depth [columnNode s c label] = []
      unfold columnNode
      split
      · exact hgrouped _ _
      · cases label with
        | none =>
          rw [valuesIn_leaf (by decide)]
          simp [valueOf?]
        | some label =>
          rw [valuesIn_leaf (by decide)]
          simp [valueOf?]
    · change valuesIn indent depth [aggregateNode entity call label] = []
      rw [aggregateNode, valuesIn_leaf (by decide)]
      cases call.distinct <;> simp [valueOf?]
    · change valuesIn indent depth [.leaf "all-attributes" []] = []
      rw [valuesIn_leaf (by decide), List.filterMap_nil]
  rw [attributeNodes, valuesIn_append, valuesIn_map, valuesIn_map]
  simp [hitem, hgrouped]

theorem valuesIn_orderNode (s : Statement) (item : OrderItem) :
    valuesIn indent depth [orderNode s item] = [] := by
  rw [orderNode, valuesIn_leaf (by decide)]
  obtain (_ | q) | label := SortKey.ofOrder s item <;> simp [SortKey.attributes, valueOf?]

theorem valuesIn_linkNodes (s : Statement) (levels : Nat) (owner : Option String) :
    valuesIn indent depth (linkNodes s levels owner) = [] := by
  have hattributes : ∀ j : Join, (linkAttributes j).filterMap valueOf? = [] := by
    intro j
    rw [linkAttributes]
    cases j.label <;> simp [valueOf?]
  induction levels generalizing depth owner with
  | zero => exact valuesIn_nil
  | succ levels ih =>
    rw [linkNodes, valuesIn_map, List.flatMap_eq_nil_iff]
    intro j _
    dsimp only
    split
    · rw [valuesIn_leaf (by decide), hattributes]
    · rw [valuesIn_branch (by decide), hattributes, valuesIn_append, valuesIn_attributeNodes, ih]
      rfl

mutual

theorem valuesIn_node (indent depth : Nat) : ∀ f : Filter,
    valuesIn indent depth [f.node] = f.leaves.flatMap fun leaf => leaf.2.texts
  | .condition column operator values => by
    have hattributes : (Filter.conditionAttributes column operator).filterMap valueOf? = [] := by
      rw [Filter.conditionAttributes]
      cases column.qualifier <;> simp [valueOf?]
    rw [Filter.leaves, List.flatMap_singleton]
    cases values with
    | none =>
      rw [Filter.node, valuesIn_leaf (by decide), hattributes]
      rfl
    | single value =>
      rw [Filter.node, valuesIn_leaf (by decide), List.filterMap_append, hattributes]
      rfl
    | list texts =>
      rw [Filter.node, valuesIn_branch (by decide), hattributes, valuesIn_texts]
      rfl
  | .group op children => by
    rw [Filter.node, valuesIn_branch (by decide), valuesIn_nodes indent (depth + 1) children,
      Filter.leaves]
    simp [valueOf?]

theorem valuesIn_nodes (indent depth : Nat) : ∀ fs : List Filter,
    valuesIn indent depth (Filter.nodes fs) =
      (Filter.leavesAll fs).flatMap fun leaf => leaf.2.texts
  | [] => by
    rw [Filter.nodes, Filter.leavesAll, valuesIn_nil, List.flatMap_nil]
  | f :: fs => by
    rw [Filter.nodes, ← List.singleton_append, valuesIn_append, valuesIn_node indent depth f,
      valuesIn_nodes indent depth fs, Filter.leavesAll, List.flatMap_append]

end

theorem valuesIn_filterNodes (s : Statement) :
    valuesIn indent depth (filterNodes s) = stringsFor s "value" := by
  change _ = (s.condition.toList.flatMap Condition.tests).flatMap fun p => p.2.texts
  cases hcondition : s.condition with
  | none =>
    rw [filterNodes, hcondition]
    exact valuesIn_nil
  | some e =>
    rw [filterNodes, hcondition]
    change valuesIn indent depth [(Filter.ofCondition e).node] = _
    rw [valuesIn_node, leaves_ofCondition, List.flatMap_map]
    simp [texts_valuesOf]

/-- The values of a written document are those of the condition, and they stand in its order. -/
theorem valuesIn_fetchNode (s : Statement) :
    valuesIn indent depth [.branch "fetch" (fetchAttributes s) [entityNode s]] =
      stringsFor s "value" := by
  have hattributes : (fetchAttributes s).filterMap valueOf? = [] := by
    rw [fetchAttributes]
    cases s.top <;> cases s.isAggregate <;> cases s.distinct <;> simp [valueOf?]
  have horders : valuesIn indent (depth + 1 + 1) (s.orderBy.map (orderNode s)) = [] := by
    rw [valuesIn_map]
    simp [valuesIn_orderNode]
  rw [valuesIn_branch (by decide), hattributes, entityNode, valuesIn_branch (by decide),
    valuesIn_append, valuesIn_append, valuesIn_append, valuesIn_attributeNodes, horders,
    valuesIn_filterNodes, valuesIn_linkNodes]
  simp [valueOf?]

end Values

/-! ### The whole document -/

/-- The markup of a statement is spelt by it. -/
theorem speltNodes_entityNode (s : Statement) : SpeltNodes s [entityNode s] := by
  have hroot : s.source.entity ∈ stringsFor s "name" :=
    List.mem_append_left _ (List.mem_append_left _ List.mem_cons_self)
  refine speltNodes_branch (by decide) (spelt_cons hroot spelt_nil) ?_
  refine speltNodes_append (speltNodes_append (speltNodes_append ?_ ?_) ?_) ?_
  · exact speltNodes_attributeNodes s.root_mem_holders
  · exact speltNodes_map fun item hitem => speltNodes_orderNode hitem
  · exact speltNodes_filterNodes s
  · exact speltNodes_linkNodes s.joins.length none

theorem speltNodes_fetchNode (s : Statement) :
    SpeltNodes s [.branch "fetch" (fetchAttributes s) [entityNode s]] :=
  speltNodes_branch (by decide) (spelt_fetchAttributes s) (speltNodes_entityNode s)

theorem rootElement_eq (s : Statement) (indent : Nat) :
    [rootElement indent "fetch" (fetchAttributes s) [entityNode s]] =
      elements indent 0 [.branch "fetch" (fetchAttributes s) [entityNode s]] := by
  rw [elements_branch]
  rfl

theorem elements_document (s : Statement) (indent depth : Nat) :
    elements indent depth (document s) =
      elements indent depth [.branch "fetch" (fetchAttributes s) [entityNode s]] := by
  rw [document]
  induction s.comments with
  | nil => rfl
  | cons comment comments ih => rw [List.map_cons, List.cons_append, elements, ih]

/-- The root element of a written document, without layout. -/
theorem bare_rootElement (s : Statement) (indent : Nat) :
    [bare (rootElement indent "fetch" (fetchAttributes s) [entityNode s])] =
      elements 0 0 (document s) := by
  have hbare := bareAll_elements (speltNodes_fetchNode s) indent 0 0
  rw [← rootElement_eq, bareAll_eq, List.map_singleton] at hbare
  rw [hbare, elements_document]

end Spelling

/-- A written document is read, at every indentation, as the comments that the statement has in
markup and, layout aside, as the elements it was written from. Every attribute value and value
text in it is a string that the statement has for its place, and the values are all those of its
condition. So neither the tree nor the statement that it is read as depends on the indentation. -/
theorem parse_render_recovers (s : Statement) (indent : Nat) :
    ∃ doc flat : Document, Document.parse (render indent s) = .ok doc ∧
      Document.parse (render 0 s) = .ok flat ∧
      doc.comments = s.comments.map (fun comment => Text.trim (commentBody comment)) ∧
      [bare doc.root] = elements 0 0 (document s) ∧
      (∀ x ∈ descendantsAmong [doc.root], Spells s x) ∧
      (descendantsAmong [doc.root]).flatMap shownValues = stringsFor s "value" ∧
      bare doc.root = bare flat.root ∧
      read (render indent s) = read (render 0 s) := by
  have hroot := bare_rootElement s indent
  have hsame := List.singleton_inj.1 (hroot.trans (bare_rootElement s 0).symm)
  refine ⟨_, _, parse_render s indent, parse_render s 0, rfl, hroot, ?_, ?_, hsame, ?_⟩
  · rw [rootElement_eq]
    exact spells_of_mem (speltNodes_fetchNode s) indent 0
  · rw [rootElement_eq]
    exact valuesIn_fetchNode s
  · rw [read, read, parse_render, parse_render]
    change ofDocument _ = ofDocument _
    rw [← ofDocument_bare, hsame, ofDocument_bare]

/-- A statement full of markup: references, brackets, quotes, blanks at both ends, a line break, and
nothing at all. -/
def markupStatement : Statement where
  comments := ["--> a -- b"]
  distinct := false
  top := none
  items := [⟨.column ⟨none, "<a>"⟩, some "\"&amp;\""⟩]
  source := ⟨"account", none⟩
  joins := []
  condition := some (.binary .or
    (.test ⟨none, "a&b"⟩ (.among [.text " <value>'x'</value>\n", .text "", .truth true]))
    (.not (.test ⟨none, "c"⟩ (.like "]]>%"))))
  groupBy := []
  orderBy := []

theorem parse_render_markup :
    ∃ doc, Document.parse (render 4 markupStatement) = .ok doc ∧
      doc.comments = ["- -> a - - b"] ∧
      (descendantsAmong [doc.root]).flatMap shownValues =
        [" <value>'x'</value>\n", "", "true", "]]>%"] := by
  obtain ⟨doc, flat, hdoc, -, hcomments, -, -, hvalues, -⟩ :=
    parse_render_recovers markupStatement 4
  exact ⟨doc, hdoc, hcomments.trans (by decide +kernel), hvalues⟩

end Fetch

end FetchQuery
