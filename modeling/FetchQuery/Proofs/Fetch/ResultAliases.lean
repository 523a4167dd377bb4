import FetchQuery.Proofs.Fetch.WrittenContents
import FetchQuery.Proofs.Sql.Accepted

/-!
# The aliases of a written document

Every attribute element of a written document that shows a result column with a label has that
label as its alias, and so has every grouping column that is not selected, with its name. So the
aliases in a document are the labels of the statement (`aliases_perm`), and they are distinct
exactly if the names of the grouping columns that are not selected are
(`aliases_distinct_iff`): the labels of select items are kept apart when a text is read, from each
other and from these names, but two such names may be the same (`namesakeGroups_aliases`).
-/

set_option autoImplicit false

namespace FetchQuery

namespace Fetch

open Xml Xml.Node

mutual

/-- The elements inside an element, in document order. -/
def descendants : Element → List Element
  | ⟨_, _, children, _⟩ => descendantsAmong children

/-- Elements with the elements inside them. -/
def descendantsAmong : List Element → List Element
  | [] => []
  | child :: rest => child :: (descendants child ++ descendantsAmong rest)

end

/-- The aliases of all attribute elements inside an element. -/
def attributeAliases (e : Element) : List String :=
  ((descendants e).filter fun x => x.name = "attribute").filterMap fun x => x.attr? "alias"

/-- The alias that an element gives to a result column. -/
def aliasOf (x : Element) : List String :=
  if x.name = "attribute" then (x.attr? "alias").toList else []

/-! ## Attribute elements stand directly in entities and links -/

theorem descendants_eq (e : Element) : descendants e = descendantsAmong e.children := by
  cases e
  rw [descendants]

theorem descendantsAmong_append (xs ys : List Element) :
    descendantsAmong (xs ++ ys) = descendantsAmong xs ++ descendantsAmong ys := by
  induction xs with
  | nil => simp [descendantsAmong]
  | cons x xs ih => simp [descendantsAmong, ih]

/-- Elements without any attribute element inside them, themselves included. -/
def Unattributed (xs : List Element) : Prop :=
  (descendantsAmong xs).flatMap aliasOf = []

theorem Unattributed.append {xs ys : List Element} (hxs : Unattributed xs)
    (hys : Unattributed ys) : Unattributed (xs ++ ys) := by
  rw [Unattributed, descendantsAmong_append, List.flatMap_append, hxs, hys, List.append_nil]

theorem unattributed_nil : Unattributed [] := by
  simp [Unattributed, descendantsAmong]

theorem unattributed_single {x : Element} (hname : x.name ≠ "attribute")
    (h : Unattributed x.children) : Unattributed [x] := by
  rw [Unattributed, descendantsAmong, descendantsAmong, descendants_eq, List.append_nil,
    List.flatMap_cons, h, aliasOf, if_neg hname, List.append_nil]

theorem Unattributed.of_mem {xs : List Element} (h : Unattributed xs) {x : Element} (hx : x ∈ xs) :
    Unattributed x.children := by
  obtain ⟨before, behind, rfl⟩ := List.append_of_mem hx
  rw [Unattributed, descendantsAmong_append, descendantsAmong, descendants_eq, List.flatMap_append,
    List.flatMap_cons, List.flatMap_append] at h
  simp only [List.append_eq_nil_iff] at h
  exact h.2.2.1

theorem unattributed_texts (indent depth : Nat) {name : String} (hname : name ≠ "attribute")
    (texts : List String) : Unattributed (elements indent depth (texts.map (Node.text name))) := by
  rw [elements_map_text]
  induction texts with
  | nil => exact unattributed_nil
  | cons text texts ih => exact (unattributed_single hname unattributed_nil).append ih

mutual

theorem unattributed_node (indent depth : Nat) : ∀ f : Filter,
    Unattributed (elements indent depth [f.node])
  | .condition column operator .none => by
    rw [Filter.node, elements_leaf]
    exact unattributed_single (by simp) unattributed_nil
  | .condition column operator (.single value) => by
    rw [Filter.node, elements_leaf]
    exact unattributed_single (by simp) unattributed_nil
  | .condition column operator (.list texts) => by
    rw [Filter.node, elements_branch]
    exact unattributed_single (by simp) (unattributed_texts _ _ (by decide) texts)
  | .group op children => by
    rw [Filter.node, elements_branch]
    exact unattributed_single (by simp) (unattributed_nodes indent (depth + 1) children)

theorem unattributed_nodes (indent depth : Nat) : ∀ fs : List Filter,
    Unattributed (elements indent depth (Filter.nodes fs))
  | [] => by
    rw [Filter.nodes, elements]
    exact unattributed_nil
  | f :: fs => by
    rw [Filter.nodes, ← List.singleton_append, elements_append]
    exact (unattributed_node indent depth f).append (unattributed_nodes indent depth fs)

end

/-- If only links hold attribute elements, all of them are contents. -/
theorem flatMap_descendantsAmong (owner : Owner) (xs : List Element)
    (h : ∀ p ∈ contents owner xs, p.2.name ≠ "link-entity" → Unattributed p.2.children) :
    (descendantsAmong xs).flatMap aliasOf = (contents owner xs).flatMap fun p => aliasOf p.2 := by
  induction owner, xs using contents_induction with
  | nil owner => simp [descendantsAmong, contents]
  | element owner e rest hname ih =>
    rw [contents_cons_of_not_link hname] at h ⊢
    have hinside := h (owner, e) List.mem_cons_self hname
    rw [descendantsAmong, descendants_eq, List.flatMap_cons, List.flatMap_append, hinside,
      List.flatMap_cons, ih fun p hp => h p (List.mem_cons_of_mem _ hp), List.nil_append]
  | link owner e rest hname ihinner ih =>
    rw [contents_cons_of_link hname] at h ⊢
    have hinner := ihinner fun p hp => h p (List.mem_cons_of_mem _ (List.mem_append_left _ hp))
    have hrest := ih fun p hp => h p (List.mem_cons_of_mem _ (List.mem_append_right _ hp))
    rw [descendantsAmong, descendants_eq, List.flatMap_cons, List.flatMap_append, List.flatMap_cons,
      List.flatMap_append, hinner, hrest]

theorem attributeAliases_eq (e : Element) :
    attributeAliases e = (descendants e).flatMap aliasOf := by
  rw [attributeAliases, List.filterMap_filter]
  induction descendants e with
  | nil => rfl
  | cons x xs ih =>
    rw [List.flatMap_cons, ← ih, aliasOf]
    by_cases hname : x.name = "attribute" <;> cases halias : x.attr? "alias" <;>
      simp [hname, halias]

/-! ## The aliases of a statement -/

section Written

variable {s : Statement} {indent : Nat} {entity : Element}

theorem unattributed_contents (hentity : IsEntityOf s indent entity) :
    ∀ p ∈ entityContents entity, p.2.name ≠ "link-entity" → Unattributed p.2.children := by
  let f (_ : Option String) (x : Element) : List String :=
    if x.name = "link-entity" then [] else (descendantsAmong x.children).flatMap aliasOf
  -- leaves hold nothing at all, and filters hold no attribute elements
  have hleaves : ∀ {nodes : List Node}, Leaves nodes → ∀ q,
      (elements 0 0 nodes).flatMap (f q) = [] := by
    intro nodes hnodes q
    rw [List.flatMap_eq_nil_iff]
    intro x hx
    simp [f, hnodes.of_mem hx, descendantsAmong]
  have hfilter : ∀ x ∈ elements indent 2 (filterNodes s), f none x = [] := by
    intro x hx
    have hunattributed : Unattributed (elements indent 2 (filterNodes s)) := by
      rw [filterNodes]
      split
      · exact unattributed_node indent 2 _
      · rw [elements]
        exact unattributed_nil
    have hname : x.name ≠ "link-entity" := by
      rw [name_of_mem_filterNodes hx]
      decide
    exact (if_neg hname).trans (hunattributed.of_mem hx)
  have hnone : (entityContents entity).flatMap (fun p => f p.1.qualifier p.2) = [] := by
    rw [flatMap_entityContents f (fun _ => []) (fun _ _ _ _ => if_pos rfl) hfilter hentity,
      attributeElements, orderElements, hleaves (leaves_attributeNodes _ _ _ _) none,
      hleaves (leaves_orderNodes s) none, List.nil_append, List.nil_append, List.flatMap_eq_nil_iff]
    intro j _
    rw [attributeElements, hleaves (leaves_attributeNodes _ _ _ _) (some j.qualifier),
      List.nil_append]
  intro p hp hname
  have hp := List.flatMap_eq_nil_iff.1 hnone p hp
  exact (if_neg hname).symm.trans hp

/-- The aliases in a written document are those of its contents. -/
theorem attributeAliases_written (hentity : IsEntityOf s indent entity) {root : Element}
    (hroot : root.children = [entity]) :
    attributeAliases root = (entityContents entity).flatMap fun p => aliasOf p.2 := by
  have hbody := flatMap_descendantsAmong (rootOwner entity) entity.children
    (unattributed_contents hentity)
  rw [attributeAliases_eq, descendants_eq, hroot, descendantsAmong, descendantsAmong,
    List.append_nil, descendants_eq, List.flatMap_cons, hbody, aliasOf, hentity.tag]
  rfl

/-- The attribute elements of an entity have the labels of its items and the names of its grouping
columns that are not selected. -/
theorem flatMap_attributeElements (hs : s.Writable) {h : Holder} (hh : h ∈ s.holders) :
    (attributeElements s h.owner h.entity h.items).flatMap aliasOf =
      h.items.filterMap (SelectItem.resultLabel? s.isAggregate h.entity) ++
        (unselectedColumns s h.owner).map ColumnRef.name := by
  rw [attributeElements, attributeNodes, elements_append, List.flatMap_append,
    flatMap_elements_map, flatMap_elements_map]
  congr 1
  · rw [List.filterMap_eq_flatMap_toList]
    apply List.flatMap_congr
    intro item hitem
    obtain ⟨x, hx, ⟨hname, -, hlabel⟩ | ⟨hname, hlabel, -⟩⟩ := exists_itemElement hs hh hitem
    · rw [hx, List.flatMap_singleton, aliasOf, hname, hlabel]
      rfl
    · rw [hx, List.flatMap_singleton, aliasOf, if_pos hname, hlabel]
  · rw [List.map_eq_flatMap]
    apply List.flatMap_congr
    intro c _
    rw [groupedNode, elements_leaf]
    rfl

/-- The aliases are the labels of the result columns, and the names of the grouping columns that
are not selected. -/
theorem aliases_perm (hs : s.Writable) (hentity : IsEntityOf s indent entity) :
    ((entityContents entity).flatMap fun p => aliasOf p.2).Perm
      (s.resultLabels ++ s.unselectedNames) := by
  have hother : ∀ (q : Option String) (x : Element), x.name ≠ "attribute" → aliasOf x = [] :=
    fun _ x hx => if_neg hx
  have hlist := flatMap_attributes (f := fun _ => aliasOf) hother hentity
  rw [hlist, Statement.resultLabels_eq]
  -- links are written depth first, so the entities come in another order
  refine ((writtenHolders_perm hs.toWellBound).flatMap_right _).trans ?_
  refine (List.Perm.of_eq (List.flatMap_congr fun h hh => flatMap_attributeElements hs hh)).trans ?_
  refine (List.flatMap_append_perm ..).symm.trans ?_
  exact (unselectedNames_perm hs).append_left _

theorem aliases_distinct_iff_of_writable (hs : s.Writable) (hentity : IsEntityOf s indent entity)
    {root : Element} (hroot : root.children = [entity]) :
    ((attributeAliases root).Pairwise fun a b => Text.sameName a b = false) ↔
      s.unselectedNames.Pairwise fun a b => Text.sameName a b = false := by
  have hperm := (aliases_perm hs hentity).map Text.lower
  rw [Statement.pairwise_sameName_iff, Statement.pairwise_sameName_iff,
    attributeAliases_written hentity hroot,
    hperm.nodup_iff, List.map_append, List.nodup_append]
  constructor
  · rintro ⟨-, hunselected, -⟩
    exact hunselected
  · intro hunselected
    -- labels are distinct among themselves and from the names when a text is accepted
    refine ⟨hs.labels_distinct, hunselected, ?_⟩
    rintro a ha b hb rfl
    obtain ⟨label, hlabel, rfl⟩ := List.mem_map.1 ha
    exact hs.labels_unselected label hlabel hb

end Written

end Fetch

open Fetch Xml

/-- The aliases of all attribute elements in the FetchXML of an accepted text are the labels of its
result columns and the names of its grouping columns that are not selected. They are distinct,
letter case aside, exactly if these names are. -/
theorem aliases_distinct_iff {text : String} {lenient : Bool} {s : Statement}
    (h : Sql.parse text lenient = .ok s) (indent : Nat) :
    ∃ doc, Document.parse (render indent s) = .ok doc ∧
      (attributeAliases doc.root).Perm (s.resultLabels ++ s.unselectedNames) ∧
      (((attributeAliases doc.root).Pairwise fun a b => Text.sameName a b = false) ↔
        s.unselectedNames.Pairwise fun a b => Text.sameName a b = false) := by
  have hs := Sql.writable_of_parse h
  obtain ⟨entity, hroot, hentity⟩ := exists_isEntityOf s indent
  refine ⟨_, parse_render s indent, ?_, aliases_distinct_iff_of_writable hs hentity hroot⟩
  rw [attributeAliases_written hentity hroot]
  exact aliases_perm hs hentity

/-- A text that counts by two columns and selects one of them. -/
def twoGroupsText : String :=
  "SELECT kind, COUNT(*) FROM book GROUP BY kind, city"

/-- The statement of `twoGroupsText`. -/
def twoGroups : Statement where
  comments := []
  distinct := false
  top := none
  items := [⟨.column ⟨none, "kind"⟩, none⟩, ⟨.aggregate ⟨.count, .star, false⟩, none⟩]
  source := ⟨"book", none⟩
  joins := []
  condition := none
  groupBy := [⟨none, "kind"⟩, ⟨none, "city"⟩]
  orderBy := []

theorem twoGroups_aliases :
    Sql.parse twoGroupsText false = .ok twoGroups ∧
      ∃ doc, Document.parse (render 2 twoGroups) = .ok doc ∧
        (attributeAliases doc.root).Pairwise fun a b => Text.sameName a b = false := by
  have hparse : Sql.parse twoGroupsText false = .ok twoGroups := by
    decide +kernel
  obtain ⟨doc, hdoc, -, hiff⟩ := aliases_distinct_iff hparse 2
  exact ⟨hparse, doc, hdoc, hiff.2 (by decide +kernel)⟩

/-- A text that groups by columns of two entities that have one name, and selects neither. -/
def namesakeGroupsText : String :=
  "SELECT COUNT(*) FROM book INNER JOIN author ON book.pen = author.id " ++
    "GROUP BY book.name, author.name"

/-- The statement of `namesakeGroupsText`. -/
def namesakeGroups : Statement where
  comments := []
  distinct := false
  top := none
  items := [⟨.aggregate ⟨.count, .star, false⟩, none⟩]
  source := ⟨"book", none⟩
  joins := [⟨"author", none, .inner, none, "pen", "id", []⟩]
  condition := none
  groupBy := [⟨none, "name"⟩, ⟨some "author", "name"⟩]
  orderBy := []

/-- The two columns are written under one alias. -/
theorem namesakeGroups_aliases :
    Sql.parse namesakeGroupsText false = .ok namesakeGroups ∧
      ∀ indent, ∃ doc, Document.parse (render indent namesakeGroups) = .ok doc ∧
        ¬(attributeAliases doc.root).Pairwise fun a b => Text.sameName a b = false := by
  have hparse : Sql.parse namesakeGroupsText false = .ok namesakeGroups := by
    decide +kernel
  refine ⟨hparse, fun indent => ?_⟩
  obtain ⟨entity, hroot, hentity⟩ := exists_isEntityOf namesakeGroups indent
  refine ⟨_, parse_render namesakeGroups indent, ?_⟩
  rw [aliases_distinct_iff_of_writable (Sql.writable_of_parse hparse) hentity hroot]
  decide +kernel

end FetchQuery
