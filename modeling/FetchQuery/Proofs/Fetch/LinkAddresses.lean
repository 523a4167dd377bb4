import FetchQuery.Proofs.Fetch.Defects
import Mathlib.Data.List.Forall2

/-!
# The joins of a read document

A link below an entity has an address: the numbers of the children that lead to it, through links
only (`linkAt?`). In lexicographic order of the addresses the elements stand in document order, a
link before the links inside it. So a list of addresses that ascends and holds every link is the
list of all links in document order.

The joins of a statement that is read belong to these addresses, one by one (`joins_of_read`).
Every join says what the attributes of its own link say, hangs off the link around it, and holds
the items of its own children (`ReadFrom`), whatever other links have the same qualifier.
-/

set_option autoImplicit false

namespace FetchQuery.Fetch

open Xml

/-! ## Addresses -/

/-- The element at an address: every number chooses a child, which has to be a link. The empty
address is that of the element itself. -/
def linkAt? (e : Element) : List Nat → Option Element
  | [] => some e
  | i :: address =>
    (e.children[i]?.filter fun child => child.name == "link-entity").bind (linkAt? · address)

/-- The name that other elements use for a link: its alias, or else its entity. -/
def qualifierOf? (e : Element) : Option String :=
  if e.name = "link-entity" then (e.attr? "alias").or (e.attr? "name") else none

theorem linkAt?_cons {e child : Element} {i : Nat} (hchild : e.children[i]? = some child)
    (hname : child.name = "link-entity") (address : List Nat) :
    linkAt? e (i :: address) = linkAt? child address := by
  rw [linkAt?, hchild, Option.filter_some_pos (by simp [hname]), Option.bind_some]

theorem linkAt?_cons_of_not_link {e child : Element} {i : Nat}
    (hchild : e.children[i]? = some child) (hname : child.name ≠ "link-entity")
    (address : List Nat) : linkAt? e (i :: address) = none := by
  simp [linkAt?, hchild, hname]

theorem linkAt?_cons_of_length_le {e : Element} {i : Nat} (hi : e.children.length ≤ i)
    (address : List Nat) : linkAt? e (i :: address) = none := by
  simp [linkAt?, List.getElem?_eq_none hi]

/-- The addresses of the links behind the first `k` children of an element, in document order. -/
structure ListsLinks (e : Element) (k : Nat) (addresses : List (List Nat)) : Prop where
  ascending : addresses.Pairwise (· < ·)
  mem_iff : ∀ i address, i :: address ∈ addresses ↔ k ≤ i ∧ (linkAt? e (i :: address)).isSome
  nil_notMem : [] ∉ addresses

section Addresses

variable {e child : Element} {k : Nat} {inner later : List (List Nat)}

theorem listsLinks_nil (h : e.children.length ≤ k) : ListsLinks e k [] := by
  refine ⟨.nil, fun i address => ?_, by simp⟩
  rw [iff_false_left List.not_mem_nil]
  rintro ⟨hi, hsome⟩
  simp [linkAt?_cons_of_length_le (Nat.le_trans h hi)] at hsome

/-- A child that is no link has no address. -/
theorem ListsLinks.of_not_link (hchild : e.children[k]? = some child)
    (hname : child.name ≠ "link-entity") (h : ListsLinks e (k + 1) later) :
    ListsLinks e k later := by
  refine ⟨h.ascending, fun i address => ?_, h.nil_notMem⟩
  rw [h.mem_iff]
  constructor
  · rintro ⟨hi, hsome⟩
    exact ⟨by omega, hsome⟩
  · rintro ⟨hi, hsome⟩
    rcases Nat.eq_or_lt_of_le hi with rfl | hi
    · simp [linkAt?_cons_of_not_link hchild hname] at hsome
    · exact ⟨hi, hsome⟩

/-- A link comes before the links inside it, and these come before the links behind it. -/
theorem ListsLinks.of_link (hchild : e.children[k]? = some child)
    (hname : child.name = "link-entity") (hinner : ListsLinks child 0 inner)
    (hlater : ListsLinks e (k + 1) later) :
    ListsLinks e k ([k] :: (inner.map (k :: ·) ++ later)) := by
  -- every address of a later link begins with a greater number
  have hbehind : ∀ address, ∀ address' ∈ later, k :: address < address' := by
    intro address address' hmem
    cases address' with
    | nil => exact absurd hmem hlater.nil_notMem
    | cons i address' =>
      have hi := ((hlater.mem_iff i address').1 hmem).1
      exact List.cons_lt_cons_iff.2 (.inl (by omega))
  refine ⟨?_, fun i address => ?_, by simp [hlater.nil_notMem]⟩
  · rw [List.pairwise_cons, List.pairwise_append, List.pairwise_map]
    refine ⟨?_, hinner.ascending.imp ?_, hlater.ascending, ?_⟩
    · intro address hmem
      rcases List.mem_append.1 hmem with hmem | hmem
      · obtain ⟨address, hmem', rfl⟩ := List.mem_map.1 hmem
        cases address with
        | nil => exact absurd hmem' hinner.nil_notMem
        | cons i address =>
          exact List.cons_lt_cons_iff.2 (.inr ⟨rfl, List.nil_lt_cons i address⟩)
      · exact hbehind [] address hmem
    · intro a b hab
      exact List.cons_lt_cons_iff.2 (.inr ⟨rfl, hab⟩)
    · intro a ha
      obtain ⟨a, -, rfl⟩ := List.mem_map.1 ha
      exact hbehind a
  · -- an address that begins with `k` is that of the link, or leads on inside it
    have hwithin : k :: address ∈ [k] :: inner.map (k :: ·) ↔
        (linkAt? e (k :: address)).isSome := by
      rw [linkAt?_cons hchild hname]
      cases address with
      | nil => simp [linkAt?]
      | cons i address => simp [hinner.mem_iff]
    rw [← List.cons_append, List.mem_append, hlater.mem_iff]
    by_cases hi : i = k
    · subst hi
      rw [hwithin]
      simp
    · have hfront : i :: address ∉ [k] :: inner.map (k :: ·) := by simp [Ne.symm hi, hi]
      rw [or_iff_right hfront]
      exact and_congr_left fun _ => by omega

end Addresses

/-! ## What a link is read as -/

/-- Whether a child of a link gives a select item: an attribute without a name or with an unknown
aggregate function gives none. -/
def givesItem (child : Element) : Bool :=
  child.name == "all-attributes" ||
    child.name == "attribute" && (child.attr? "name").isSome &&
      (child.attr? "aggregate").all fun function => (AggregateFunction.ofFetch? function).isSome

/-- The item of the join `j` that a child of its link gives. -/
inductive ChildGives (j : Join) (child : Element) : SelectItem → Prop where
  | all (hchild : child.name = "all-attributes") :
      ChildGives j child ⟨.wildcard (some j.qualifier), none⟩
  | column {name : String} (hchild : child.name = "attribute")
      (hname : child.attr? "name" = some name) (haggregate : child.attr? "aggregate" = none) :
      ChildGives j child ⟨.column ⟨some j.qualifier, name⟩,
        if child.flag "groupby" then (child.attr? "alias").filter (· != name)
        else child.attr? "alias"⟩
  | aggregate {name function : String} {f : AggregateFunction} (hchild : child.name = "attribute")
      (hname : child.attr? "name" = some name)
      (haggregate : child.attr? "aggregate" = some function)
      (hfunction : AggregateFunction.ofFetch? function = some f) :
      ChildGives j child
        ⟨.aggregate ⟨f, .column ⟨some j.qualifier, name⟩, child.flag "distinct"⟩,
          some ((child.attr? "alias").getD (f.fetch ++ "_" ++ name))⟩

/-- The join that a link with the qualifier `outer` around it is read as. -/
structure ReadFrom (outer : Option String) (link : Element) (j : Join) : Prop where
  entity : link.attr? "name" = some j.entity
  label : link.attr? "alias" = j.label
  fromAttribute : link.attr? "to" = some j.fromAttribute
  toAttribute : link.attr? "from" = some j.toAttribute
  kind : j.kind = .outer ↔ link.attr? "link-type" = some "outer"
  parent : j.parent = outer
  /-- One item for each child that gives one, in the order of the children. -/
  items : List.Forall₂ (ChildGives j) (link.children.filter givesItem) j.items

/-- The join that is read from the link at an address below an entity. Without its last number
the address is that of the element around the link. -/
def JoinAt (entity : Element) (address : List Nat) (j : Join) : Prop :=
  address ≠ [] ∧ ∃ link, linkAt? entity address = some link ∧
    ReadFrom ((linkAt? entity address.dropLast).bind qualifierOf?) link j

section Links

variable {e link : Element}

theorem linkKind_eq_outer_iff (e : Element) (entity : String) :
    (linkKind e entity).value = .outer ↔ e.attr? "link-type" = some "outer" := by
  rw [linkKind]
  split <;> simp_all

/-- An attribute with a name and no unknown function gives an item. -/
theorem itemOf?_of_attribute {owner : Owner} {child : Element} {name : String}
    (hchild : child.name = "attribute") (hname : child.attr? "name" = some name) :
    itemOf? owner child =
      match child.attr? "aggregate" with
      | none => some ⟨.column ⟨owner.qualifier, name⟩,
          if child.flag "groupby" then (child.attr? "alias").filter (· != name)
          else child.attr? "alias"⟩
      | some function => (readAggregate owner child function name).value := by
  rw [itemOf?, if_pos hchild, readAttribute, hname]
  cases child.attr? "aggregate" with
  | some function => rfl
  | none => cases child.flag "groupby" <;> simp

/-- A child gives an item of the join exactly if it is one of those that give items. -/
theorem itemOf?_ownerOf (j : Join) (child : Element) :
    (givesItem child = false ∧ itemOf? (ownerOf j) child = none) ∨
      givesItem child = true ∧ ∃ item, itemOf? (ownerOf j) child = some item ∧
        ChildGives j child item := by
  by_cases hall : child.name = "all-attributes"
  · exact .inr ⟨by simp [givesItem, hall], _, by simp [itemOf?, hall, ownerOf], .all hall⟩
  by_cases hchild : child.name = "attribute"
  swap
  · exact .inl ⟨by simp [givesItem, hall, hchild], by simp [itemOf?, hall, hchild]⟩
  cases hname : child.attr? "name" with
  | none =>
    exact .inl ⟨by simp [givesItem, hall, hname], by simp [itemOf?, hchild, readAttribute, hname]⟩
  | some name =>
    rw [itemOf?_of_attribute hchild hname]
    cases haggregate : child.attr? "aggregate" with
    | none =>
      exact .inr ⟨by simp [givesItem, hchild, hname, haggregate], _, rfl,
        .column hchild hname haggregate⟩
    | some function =>
      cases hfunction : AggregateFunction.ofFetch? function with
      | none =>
        exact .inl ⟨by simp [givesItem, hall, haggregate, hfunction],
          by simp [readAggregate, hfunction]⟩
      | some f =>
        -- the qualifier of a join is there, so the argument is no star
        have hargument : readArgument (ownerOf j) function name =
            .column ⟨some j.qualifier, name⟩ := by
          simp [readArgument, ownerOf]
        refine .inr ⟨by simp [givesItem, hchild, hname, haggregate, hfunction], _, ?_,
          .aggregate hchild hname haggregate hfunction⟩
        cases halias : child.attr? "alias" <;>
          simp [readAggregate, hfunction, halias, hargument, AggregateCall.defaultLabel,
            AggregateCall.attributeName]

theorem forall₂_childGives (j : Join) (children : List Element) :
    List.Forall₂ (ChildGives j) (children.filter givesItem)
      (children.filterMap (itemOf? (ownerOf j))) := by
  induction children with
  | nil => exact .nil
  | cons child children ih =>
    rcases itemOf?_ownerOf j child with ⟨hgives, hnone⟩ | ⟨hgives, item, hsome, hitem⟩
    · rwa [List.filter_cons_of_neg (by simp [hgives]), List.filterMap_cons_none hnone]
    · rw [List.filter_cons_of_pos hgives, List.filterMap_cons_some hsome]
      exact .cons hitem ih

theorem drop_eq_cons {α : Type} {l rest : List α} {k : Nat} {a : α} (h : l.drop k = a :: rest) :
    l[k]? = some a ∧ l.drop (k + 1) = rest := by
  constructor
  · rw [← List.head?_drop, h, List.head?_cons]
  · rw [← List.tail_drop, h, List.tail_cons]

theorem exists_attr_of_missing_eq_nil {element : String} {names : List String}
    (h : missing element names e = []) (name : String) (hmem : name ∈ names) :
    ∃ value, e.attr? name = some value := by
  by_contra hnone
  refine missing_ne_nil_iff.2 ⟨name, hmem, ?_⟩ h
  exact Option.eq_none_iff_forall_ne_some.2 fun value hvalue => hnone ⟨value, hvalue⟩

/-- A link without defects is read as the join of its own attributes and children. -/
theorem readFrom_of_linkDefects (h : linkDefects link = []) (outer : Option String) :
    ReadFrom outer link { linkJoin outer link with
      items := link.children.filterMap (itemOf? (linkOwner link)) } := by
  obtain ⟨entity, hentity⟩ := exists_attr_of_missing_eq_nil h "name" (by simp)
  obtain ⟨fromName, hfrom⟩ := exists_attr_of_missing_eq_nil h "from" (by simp)
  obtain ⟨toName, hto⟩ := exists_attr_of_missing_eq_nil h "to" (by simp)
  refine ⟨?_, rfl, ?_, ?_, linkKind_eq_outer_iff link _, rfl, forall₂_childGives _ _⟩
  · simp [linkJoin, hentity]
  · simp [linkJoin, hto]
  · simp [linkJoin, hfrom]

theorem qualifierOf?_eq_linkOwner (hname : link.name = "link-entity") (h : linkDefects link = []) :
    qualifierOf? link = (linkOwner link).qualifier := by
  obtain ⟨entity, hentity⟩ := exists_attr_of_missing_eq_nil h "name" (by simp)
  cases halias : link.attr? "alias" <;>
    simp [qualifierOf?, linkOwner, ownerOf, linkJoin, Join.qualifier, hname, hentity, halias]

/-- The join at an address inside a link is the one at the longer address from outside. -/
theorem JoinAt.inside {child : Element} {k : Nat} (hchild : e.children[k]? = some child)
    (hname : child.name = "link-entity") {address : List Nat} {j : Join}
    (h : JoinAt child address j) : JoinAt e (k :: address) j := by
  obtain ⟨hne, link, hlink, hread⟩ := h
  refine ⟨List.cons_ne_nil k address, link, (linkAt?_cons hchild hname address).trans hlink, ?_⟩
  rwa [List.dropLast_cons_of_ne_nil hne, linkAt?_cons hchild hname]

end Links

/-! ## Joins and addresses -/

/-- The joins of the links behind the first `k` children of an element, if these links have no
defects, belong to the addresses of the links. The induction follows the links, and `k` counts
the children that have been passed. -/
theorem exists_addresses (owner : Owner) (xs : List Element) : ∀ (e : Element) (k : Nat),
    e.children.drop k = xs → qualifierOf? e = owner.qualifier →
    (linksIn owner xs).flatMap linkDefects = [] →
    ∃ addresses, ListsLinks e k addresses ∧
      List.Forall₂ (JoinAt e) addresses (joinsBelow owner xs) := by
  induction owner, xs using contents_induction with
  | nil owner =>
    intro e k hdrop _ _
    refine ⟨[], listsLinks_nil (List.drop_eq_nil_iff.1 hdrop), ?_⟩
    rw [joinsBelow]
    exact .nil
  | element owner child rest hname ih =>
    intro e k hdrop howner hdefects
    obtain ⟨hchild, hrest⟩ := drop_eq_cons hdrop
    rw [linksIn_cons_of_not_link hname] at hdefects
    obtain ⟨later, hlists, hjoins⟩ := ih e (k + 1) hrest howner hdefects
    rw [joinsBelow_cons_of_not_link hname]
    exact ⟨later, hlists.of_not_link hchild hname, hjoins⟩
  | link owner child rest hname ihinner ih =>
    intro e k hdrop howner hdefects
    obtain ⟨hchild, hrest⟩ := drop_eq_cons hdrop
    rw [linksIn_cons_of_link hname, List.flatMap_cons, List.flatMap_append,
      List.append_eq_nil_iff, List.append_eq_nil_iff] at hdefects
    obtain ⟨hlink, hdefects, hdefects'⟩ := hdefects
    obtain ⟨inner, hlists, hjoins⟩ :=
      ihinner child 0 (List.drop_zero) (qualifierOf?_eq_linkOwner hname hlink) hdefects
    obtain ⟨later, hlists', hjoins'⟩ := ih e (k + 1) hrest howner hdefects'
    refine ⟨_, hlists.of_link hchild hname hlists', ?_⟩
    rw [joinsBelow_cons_of_link hname]
    refine .cons ⟨by simp, child, linkAt?_cons hchild hname [], ?_⟩ (List.rel_append ?_ hjoins')
    · -- around the link stands the element whose children are listed
      have houter : (linkAt? e [k].dropLast).bind qualifierOf? = owner.qualifier := howner
      rw [houter]
      exact readFrom_of_linkDefects hlink owner.qualifier
    · rw [List.forall₂_map_left_iff]
      exact hjoins.imp fun _ _ hjoin => hjoin.inside hchild hname

/-- A document that is read has no defects, and the joins of the statement are those of the links
below its first entity. -/
theorem joins_of_ofDocument {doc : Document} {reading : Reading Statement}
    (h : ofDocument doc = .ok reading) :
    ∃ entity others, doc.root.childrenNamed "entity" = entity :: others ∧
      (linksIn (rootOwner entity) entity.children).flatMap linkDefects = [] ∧
      reading.value.joins = joinsBelow (rootOwner entity) entity.children := by
  have hdefects := (reports_ofDocument doc).exists_ok_iff.1 ⟨reading, h⟩
  obtain ⟨entity, others, root, items, d, hentities, hname, hread, rfl⟩ := readBody_of_ofDocument h
  rw [defects, hentities, List.append_eq_nil_iff] at hdefects
  refine ⟨entity, others, hentities, (List.append_eq_nil_iff.1 hdefects.2).2, ?_⟩
  have hjoins := (gathers_of_readBody root _ _ _ _ _ hread).gathered.joins_eq
  rwa [List.nil_append] at hjoins

/-- The joins of a statement that is read are those of the links that the first entity holds
through links, one for each in document order. The addresses of these links ascend, and the join
at an address says what its link says and holds what the children of its link give. -/
theorem joins_of_read {xml : String} {reading : Reading Statement} (h : read xml = .ok reading) :
    ∃ doc entity others, Document.parse xml = .ok doc ∧
      doc.root.childrenNamed "entity" = entity :: others ∧
      ∃ addresses : List (List Nat), addresses.Pairwise (· < ·) ∧
        (∀ address, address ∈ addresses ↔ address ≠ [] ∧ (linkAt? entity address).isSome) ∧
        List.Forall₂ (JoinAt entity) addresses reading.value.joins := by
  rw [read] at h
  cases hdoc : Document.parse xml with
  | error error => simp [hdoc] at h
  | ok doc =>
    rw [hdoc] at h
    obtain ⟨entity, others, hentities, hdefects, hjoins⟩ := joins_of_ofDocument h
    have hname : entity.name = "entity" := by
      have hmem : entity ∈ doc.root.childrenNamed "entity" := by simp [hentities]
      simpa using (List.mem_filter.1 hmem).2
    have howner : qualifierOf? entity = (rootOwner entity).qualifier := by
      simp [qualifierOf?, hname, rootOwner]
    obtain ⟨addresses, hlists, hread⟩ :=
      exists_addresses _ _ entity 0 List.drop_zero howner hdefects
    refine ⟨doc, entity, others, rfl, hentities, addresses, hlists.ascending, ?_, hjoins ▸ hread⟩
    intro address
    cases address with
    | nil => simp [hlists.nil_notMem]
    | cons i address => simp [hlists.mem_iff]

/-- A document with a link inside a link of the same qualifier, and behind it an attribute. -/
def nestedPens : String :=
  "<fetch><entity name=\"book\"><link-entity name=\"pen\" from=\"id\" to=\"by\">" ++
    "<link-entity name=\"pen\" from=\"up\" to=\"at\"/><attribute name=\"ink\"/>" ++
    "</link-entity></entity></fetch>"

/-- The joins of the document: the attribute belongs to the outer link. -/
def nestedPenJoins : List Join :=
  [⟨"pen", none, .inner, none, "by", "id", [⟨.column ⟨some "pen", "ink"⟩, none⟩]⟩,
    ⟨"pen", none, .inner, some "pen", "at", "up", []⟩]

theorem joins_of_nestedPens :
    ∃ reading, read nestedPens = .ok reading ∧ reading.value.joins = nestedPenJoins ∧
      ∃ doc entity others, Document.parse nestedPens = .ok doc ∧
        doc.root.childrenNamed "entity" = entity :: others ∧
        ∃ addresses : List (List Nat), addresses.Pairwise (· < ·) ∧
          (∀ address, address ∈ addresses ↔ address ≠ [] ∧ (linkAt? entity address).isSome) ∧
          List.Forall₂ (JoinAt entity) addresses nestedPenJoins := by
  have hjoins : (read nestedPens).toOption.map (fun reading => reading.value.joins) =
      some nestedPenJoins := by
    decide +kernel
  cases hread : read nestedPens with
  | error error => simp [hread, Except.toOption] at hjoins
  | ok reading =>
    have hvalue : reading.value.joins = nestedPenJoins := by
      simpa [hread, Except.toOption] using hjoins
    exact ⟨reading, rfl, hvalue, hvalue ▸ joins_of_read hread⟩

end FetchQuery.Fetch
