import FetchQuery.Fetch.Read
import FetchQuery.Proofs.Fetch.ElementReading

/-!
# The contents of a fetch document

`contents` lists what stands below an entity and below the links inside it, in document order,
each element with the entity it belongs to. Reading a body is a fold over this list: an element
gives a select item, a grouping column, a sort column, a condition or warnings of its own
(`Draft.takeIn`), and a link gives a join. `Gathers` says how a body is taken in one element
after the other, and `Gathers.gathered` what the complete draft holds in terms of the elements.

Warnings are never taken back. So a draft without warnings comes from elements without warnings
and from links with distinct qualifiers (`Gathers.quiet`).
-/

set_option autoImplicit false

namespace FetchQuery.Fetch

open Xml

/-! ## Elements and their entities -/

/-- The join that a link element below the entity `parent` states, without its select items. -/
def linkJoin (parent : Option String) (e : Element) : Join :=
  let entity := (e.attr? "name").getD ""
  ⟨entity, e.attr? "alias", (linkKind e entity).value, parent, (e.attr? "to").getD "",
    (e.attr? "from").getD "", []⟩

/-- The entity that a link element brings in. -/
def linkOwner (e : Element) : Owner :=
  ownerOf (linkJoin none e)

mutual

/-- The elements below an entity and below the links inside it, in document order, each with
the entity it belongs to. -/
def contents (owner : Owner) : List Element → List (Owner × Element)
  | [] => []
  | child :: rest => (owner, child) :: (contentsOfLink child ++ contents owner rest)

/-- The elements inside a link; other elements have no contents. -/
def contentsOfLink : Element → List (Owner × Element)
  | e@⟨name, _, children, _⟩ =>
    if name = "link-entity" then contents (linkOwner e) children else []

end

theorem contents_append (owner : Owner) (xs ys : List Element) :
    contents owner (xs ++ ys) = contents owner xs ++ contents owner ys := by
  induction xs with
  | nil => simp [contents]
  | cons x xs ih => simp [contents, ih]

theorem contentsOfLink_eq (e : Element) :
    contentsOfLink e =
      if e.name = "link-entity" then contents (linkOwner e) e.children else [] := by
  cases e
  rw [contentsOfLink]

/-! ## What an element gives -/

/-- The select item that an element gives to the entity it belongs to. -/
def itemOf? (owner : Owner) (e : Element) : Option SelectItem :=
  if e.name = "attribute" then (readAttribute owner e ⟨[], [], [], [], []⟩).1
  else if e.name = "all-attributes" then some ⟨.wildcard owner.qualifier, none⟩
  else none

/-- The grouping column that an element gives. -/
def groupOf? (owner : Owner) (e : Element) : Option ColumnRef :=
  if e.name = "attribute" ∧ e.attr? "aggregate" = none ∧ e.flag "groupby" = true then
    (e.attr? "name").map fun name => ⟨owner.qualifier, name⟩
  else none

/-- The sort column that an element gives. -/
def orderOf? (owner : Owner) (e : Element) : Option OrderItem :=
  if e.name = "order" then (readOrder owner.qualifier e).toOption else none

/-- The condition that an element gives. -/
def conditionOf? (owner : Owner) (e : Element) : Option Condition :=
  if e.name = "filter" then (readFilter owner.qualifier e).value else none

/-- The warnings that an element gives by itself. -/
def warningsOf (owner : Owner) (e : Element) : List Warning :=
  if e.name = "attribute" then (readAttribute owner e ⟨[], [], [], [], []⟩).2.warnings
  else if e.name = "all-attributes" then []
  else if e.name = "order" then
    match readOrder owner.qualifier e with
    | .ok _ => []
    | .error warning => [warning]
  else if e.name = "filter" then
    outerFilterWarning owner ++ (readFilter owner.qualifier e).warnings
  else if e.name = "link-entity" then (linkKind e ((e.attr? "name").getD "")).warnings
  else [.unknownElement e.name]

/-- A draft with what an element gives that is no link. -/
def Draft.takeIn (d : Draft) (owner : Owner) (e : Element) : Draft :=
  ⟨d.joins, insertColumns d.groupBy (groupOf? owner e).toList,
    d.orderBy ++ (orderOf? owner e).toList, d.conditions ++ (conditionOf? owner e).toList,
    d.warnings ++ warningsOf owner e⟩

section Steps

variable {root : String} {owner : Owner} {e : Element} {d d' : Draft} {rest : List Element}

/-- An attribute element gives the same to every draft. -/
theorem readAttribute_eq (h : e.name = "attribute") :
    readAttribute owner e d = (itemOf? owner e, d.takeIn owner e) := by
  simp only [itemOf?, Draft.takeIn, groupOf?, orderOf?, conditionOf?, warningsOf, h]
  cases hname : e.attr? "name" with
  | none => simp [readAttribute, hname, Draft.warn, insertColumns]
  | some name =>
    cases hagg : e.attr? "aggregate" with
    | some function => simp [readAttribute, hname, hagg, Draft.warn, insertColumns]
    | none =>
      cases hgroup : e.flag "groupby" with
      | false => simp [readAttribute, hname, hagg, hgroup, Draft.warn, insertColumns]
      | true =>
        simp [readAttribute, hname, hagg, hgroup, Draft.warn, Draft.group_eq, Draft.groupAll,
          insertColumns]

theorem addOrder_eq (h : e.name = "order") : addOrder owner e d = d.takeIn owner e := by
  simp only [addOrder, Draft.takeIn, groupOf?, orderOf?, conditionOf?, warningsOf, h]
  cases readOrder owner.qualifier e <;> simp [Draft.warn, insertColumns, Except.toOption]

theorem addFilter_eq (h : e.name = "filter") : addFilter owner e d = d.takeIn owner e := by
  simp [addFilter, Draft.takeIn, groupOf?, orderOf?, conditionOf?, warningsOf, h, Draft.warn,
    insertColumns]

/-- An element that is no link is taken in by itself. -/
theorem readBody_of_not_link (h : e.name ≠ "link-entity") :
    readBody root owner (e :: rest) d =
      (readBody root owner rest (d.takeIn owner e)).map fun read =>
        ((itemOf? owner e).toList ++ read.1, read.2) := by
  have hsame : ∀ result : Except ReadError (List SelectItem × Draft),
      result = result.map fun read => ([] ++ read.1, read.2) := by
    intro result
    cases result <;> rfl
  rw [readBody]
  split
  · next hname => rw [readAttribute_eq hname]
  next hattribute =>
  split
  · next hname => simp [itemOf?, Draft.takeIn, groupOf?, orderOf?, conditionOf?, warningsOf, hname,
      insertColumns]
  next hall =>
  have hitem : itemOf? owner e = none := by simp [itemOf?, hattribute, hall]
  rw [hitem, Option.toList_none, ← hsame]
  split
  · next hname => rw [addOrder_eq hname]
  split
  · next hname => rw [addFilter_eq hname]
  next horder hfilter =>
  simp [Draft.takeIn, groupOf?, orderOf?, conditionOf?, warningsOf, hattribute, hall, horder,
    hfilter, h, Draft.warn, insertColumns]

/-- A link is read with everything inside it before the elements behind it. -/
theorem readBody_of_link (h : e.name = "link-entity") :
    readBody root owner (e :: rest) d =
      (readJoin root owner e d).bind (readBody root owner rest) := by
  rw [readBody]
  simp [h]

/-- A link that is read states the join of its attributes. -/
theorem readLink_eq {parent : Option String} {join : Reading Join}
    (h : readLink parent e = .ok join) :
    join = ⟨linkJoin parent e, (linkKind e ((e.attr? "name").getD "")).warnings⟩ := by
  simp only [readLink, required] at h
  cases hname : e.attr? "name" with
  | none => simp [hname, bind, Except.bind] at h
  | some name =>
    cases hfrom : e.attr? "from" with
    | none => simp [hname, hfrom, bind, Except.bind] at h
    | some toAttribute =>
      cases hto : e.attr? "to" with
      | none => simp [hname, hfrom, hto, bind, Except.bind] at h
      | some fromAttribute =>
        simp only [hname, hfrom, hto, bind, Except.bind, pure, Except.pure, Except.ok.injEq] at h
        simp [linkJoin, hname, hfrom, hto, ← h]

end Steps

/-! ## Taking in a body -/

/-- How the elements below an entity are taken in, one after the other. The elements inside a
link are taken in right behind it, and their items are those of its join. -/
inductive Gathers (root : String) :
    Owner → List Element → Draft → List SelectItem → Draft → Prop where
  | nil {owner : Owner} {d : Draft} : Gathers root owner [] d [] d
  | element {owner : Owner} {e : Element} {rest : List Element} {d d' : Draft}
      {items : List SelectItem} (hname : e.name ≠ "link-entity")
      (hrest : Gathers root owner rest (d.takeIn owner e) items d') :
      Gathers root owner (e :: rest) d ((itemOf? owner e).toList ++ items) d'
  | link {owner : Owner} {e : Element} {rest : List Element} {d inner d' : Draft}
      {join : Reading Join} {items more : List SelectItem} (hname : e.name = "link-entity")
      (hlink : readLink owner.qualifier e = .ok join)
      (hinner : Gathers root (ownerOf join.value) e.children (d.addJoin root join) items inner)
      (hrest : Gathers root owner rest
        { inner with joins := inner.joins.set d.joins.length { join.value with items } } more d') :
      Gathers root owner (e :: rest) d more d'

mutual

theorem gathers_of_readBody (root : String) : ∀ (owner : Owner) (xs : List Element) (d d' : Draft)
    (items : List SelectItem), readBody root owner xs d = .ok (items, d') →
      Gathers root owner xs d items d'
  | owner, [], d, d', items, h => by
    rw [readBody] at h
    cases h
    exact .nil
  | owner, e :: rest, d, d', items, h => by
    by_cases hname : e.name = "link-entity"
    · rw [readBody_of_link hname] at h
      cases hjoin : readJoin root owner e d with
      | error error => simp [hjoin, Except.bind] at h
      | ok read =>
        rw [hjoin, Except.bind] at h
        obtain ⟨join, inner, taken, hlink, hinner, rfl⟩ :=
          gathers_of_readJoin root owner e d read hjoin
        exact .link hname hlink hinner (gathers_of_readBody root owner rest _ d' items h)
    · rw [readBody_of_not_link hname] at h
      cases hread : readBody root owner rest (d.takeIn owner e) with
      | error error => simp [hread, Except.map] at h
      | ok read =>
        rw [hread] at h
        cases h
        exact .element hname (gathers_of_readBody root owner rest _ _ _ hread)

theorem gathers_of_readJoin (root : String) : ∀ (owner : Owner) (e : Element) (d d' : Draft),
    readJoin root owner e d = .ok d' → ∃ (join : Reading Join) (inner : Draft)
      (items : List SelectItem), readLink owner.qualifier e = .ok join ∧
        Gathers root (ownerOf join.value) e.children (d.addJoin root join) items inner ∧
        d' = { inner with joins := inner.joins.set d.joins.length { join.value with items } }
  | owner, ⟨name, attributes, children, text⟩, d, d', h => by
    rw [readJoin] at h
    cases hlink : readLink owner.qualifier ⟨name, attributes, children, text⟩ with
    | error error => simp [hlink, Except.bind] at h
    | ok join =>
      rw [hlink, Except.bind] at h
      cases hread : readBody root (ownerOf join.value) children (d.addJoin root join) with
      | error error => simp [hread, Except.map] at h
      | ok read =>
        rw [hread] at h
        cases h
        exact ⟨join, read.2, read.1, rfl, gathers_of_readBody root _ children _ _ _ hread, rfl⟩

end

/-! ## What a draft has gathered -/

mutual

/-- The joins of the links below an entity, every join before those of the links inside it. -/
def joinsBelow (owner : Owner) : List Element → List Join
  | [] => []
  | child :: rest => joinsOfLink owner child ++ joinsBelow owner rest

/-- The join of a link with its select items, and the joins of the links inside it. -/
def joinsOfLink (owner : Owner) : Element → List Join
  | e@⟨name, _, children, _⟩ =>
    if name = "link-entity" then
      { linkJoin owner.qualifier e with items := children.filterMap (itemOf? (linkOwner e)) } ::
        joinsBelow (linkOwner e) children
    else []

end

section Bodies

variable {root : String} {owner : Owner} {e : Element} {xs rest : List Element} {d d' : Draft}
  {items : List SelectItem}

theorem contents_cons_of_not_link (h : e.name ≠ "link-entity") :
    contents owner (e :: rest) = (owner, e) :: contents owner rest := by
  rw [contents, contentsOfLink_eq, if_neg h, List.nil_append]

theorem contents_cons_of_link (h : e.name = "link-entity") :
    contents owner (e :: rest) =
      (owner, e) :: (contents (linkOwner e) e.children ++ contents owner rest) := by
  rw [contents, contentsOfLink_eq, if_pos h]

theorem joinsBelow_cons_of_not_link (h : e.name ≠ "link-entity") :
    joinsBelow owner (e :: rest) = joinsBelow owner rest := by
  obtain ⟨name, attributes, children, text⟩ := e
  rw [joinsBelow, joinsOfLink, if_neg h, List.nil_append]

theorem joinsBelow_cons_of_link (h : e.name = "link-entity") :
    joinsBelow owner (e :: rest) =
      { linkJoin owner.qualifier e with items := e.children.filterMap (itemOf? (linkOwner e)) } ::
        (joinsBelow (linkOwner e) e.children ++ joinsBelow owner rest) := by
  obtain ⟨name, attributes, children, text⟩ := e
  rw [joinsBelow, joinsOfLink, if_pos h, List.cons_append]

/-- A link gives nothing but its join. -/
theorem gives_of_link (owner : Owner) (h : e.name = "link-entity") :
    itemOf? owner e = none ∧ groupOf? owner e = none ∧ orderOf? owner e = none ∧
      conditionOf? owner e = none := by
  simp [itemOf?, groupOf?, orderOf?, conditionOf?, h]

/-- What a draft holds behind the elements `xs` below an entity, besides its warnings. -/
structure Gathered (owner : Owner) (xs : List Element) (d : Draft) (items : List SelectItem)
    (d' : Draft) : Prop where
  items_eq : items = xs.filterMap (itemOf? owner)
  joins_eq : d'.joins = d.joins ++ joinsBelow owner xs
  groupBy_eq : d'.groupBy =
    insertColumns d.groupBy ((contents owner xs).filterMap fun p => groupOf? p.1 p.2)
  orderBy_eq : d'.orderBy = d.orderBy ++ (contents owner xs).filterMap fun p => orderOf? p.1 p.2
  conditions_eq : d'.conditions =
    d.conditions ++ (contents owner xs).filterMap fun p => conditionOf? p.1 p.2

theorem filterMap_cons_toList {α β : Type} (f : α → Option β) (x : α) (xs : List α) :
    (x :: xs).filterMap f = (f x).toList ++ xs.filterMap f := by
  cases h : f x <;> simp [h]

theorem Gathers.gathered (h : Gathers root owner xs d items d') :
    Gathered owner xs d items d' := by
  induction h with
  | nil => constructor <;> simp [contents, joinsBelow, insertColumns]
  | element hname _ ih =>
    -- the element is the first of the contents, and what it gives is at the end of the draft
    constructor
    · rw [filterMap_cons_toList, ih.items_eq]
    · rw [joinsBelow_cons_of_not_link hname, ih.joins_eq]
      rfl
    · rw [contents_cons_of_not_link hname, filterMap_cons_toList, insertColumns_append,
        ih.groupBy_eq]
      rfl
    · rw [contents_cons_of_not_link hname, filterMap_cons_toList, ← List.append_assoc,
        ih.orderBy_eq]
      rfl
    · rw [contents_cons_of_not_link hname, filterMap_cons_toList, ← List.append_assoc,
        ih.conditions_eq]
      rfl
  | @link owner e rest d inner d' join items more hname hlink hinner hrest ihinner ihrest =>
    obtain ⟨hitem, hgroup, horder, hcondition⟩ := gives_of_link owner hname
    cases readLink_eq hlink
    have howner : ownerOf (linkJoin owner.qualifier e) = linkOwner e := rfl
    rw [howner] at ihinner
    constructor
    · rw [filterMap_cons_toList, hitem, ihrest.items_eq]
      rfl
    · -- the join of the link is the one behind those that were there before
      rw [joinsBelow_cons_of_link hname, ihrest.joins_eq, ihinner.joins_eq, ← ihinner.items_eq]
      simp [Draft.addJoin, Draft.warn]
    · rw [contents_cons_of_link hname, filterMap_cons_toList, hgroup, List.filterMap_append,
        Option.toList_none, List.nil_append, insertColumns_append, ihrest.groupBy_eq,
        ihinner.groupBy_eq]
      rfl
    · rw [contents_cons_of_link hname, filterMap_cons_toList, horder, List.filterMap_append,
        Option.toList_none, List.nil_append, ← List.append_assoc, ihrest.orderBy_eq,
        ihinner.orderBy_eq]
      rfl
    · rw [contents_cons_of_link hname, filterMap_cons_toList, hcondition, List.filterMap_append,
        Option.toList_none, List.nil_append, ← List.append_assoc, ihrest.conditions_eq,
        ihinner.conditions_eq]
      rfl

/-- A qualifier without a warning is not in use. -/
theorem notMem_of_qualifierWarning {root q : String} {joins : List Join}
    (h : qualifierWarning root q joins = []) : q ∉ root :: joins.map Join.qualifier := by
  rw [qualifierWarning] at h
  split at h
  · cases h
  next hfree =>
  intro hmem
  rcases List.mem_cons.1 hmem with hroot | hjoined
  · exact hfree (.inl hroot)
  · obtain ⟨j, hj, hq⟩ := List.mem_map.1 hjoined
    exact hfree (.inr (List.any_eq_true.2 ⟨j, hj, by simp [hq]⟩))

/-- A join whose qualifier is not in use keeps the qualifiers distinct. -/
theorem nodup_qualifiers_concat {root : String} {joins : List Join} {j : Join}
    (h : (root :: joins.map Join.qualifier).Nodup)
    (hnew : j.qualifier ∉ root :: joins.map Join.qualifier) :
    (root :: (joins ++ [j]).map Join.qualifier).Nodup := by
  rw [List.map_append, List.map_singleton, ← List.cons_append, ← List.concat_eq_append]
  exact h.concat hnew

/-- A body that leaves no warnings has no element with a warning, and its links have qualifiers
that are not in use. -/
theorem Gathers.quiet (h : Gathers root owner xs d items d') (hw : d'.warnings = []) :
    d.warnings = [] ∧ (∀ p ∈ contents owner xs, warningsOf p.1 p.2 = []) ∧
      ((root :: d.joins.map Join.qualifier).Nodup →
        (root :: d'.joins.map Join.qualifier).Nodup) := by
  induction h with
  | nil => exact ⟨hw, by simp [contents], id⟩
  | @element owner e rest d d' items hname hrest ih =>
    obtain ⟨hbefore, hquiet, hdistinct⟩ := ih hw
    obtain ⟨hd, he⟩ := List.append_eq_nil_iff.1 hbefore
    refine ⟨hd, ?_, hdistinct⟩
    rw [contents_cons_of_not_link hname]
    rintro p hp
    rcases List.mem_cons.1 hp with rfl | hp
    · exact he
    · exact hquiet p hp
  | @link owner e rest d inner d' join items more hname hlink hinner hrest ihinner ihrest =>
    obtain ⟨hinnerw, hquiet, hdistinct⟩ := ihrest hw
    obtain ⟨hbefore, hquiet', hdistinct'⟩ := ihinner hinnerw
    have hjoins := hinner.gathered.joins_eq
    cases readLink_eq hlink
    simp only [Draft.addJoin, Draft.warn, List.append_eq_nil_iff] at hbefore
    obtain ⟨hd, hkind, hqualifier⟩ := hbefore
    refine ⟨hd, ?_, ?_⟩
    · rw [contents_cons_of_link hname]
      rintro p hp
      rcases List.mem_cons.1 hp with rfl | hp
      · simpa [warningsOf, hname] using hkind
      rcases List.mem_append.1 hp with hp | hp
      · exact hquiet' p hp
      · exact hquiet p hp
    · intro hnodup
      have hnew := notMem_of_qualifierWarning hqualifier
      have hadded := hdistinct' (nodup_qualifiers_concat hnodup hnew)
      -- the items that the join gets in the end leave its qualifier as it is
      have hsame : (inner.joins.set d.joins.length
          { linkJoin owner.qualifier e with items }).map Join.qualifier =
            inner.joins.map Join.qualifier := by
        rw [hjoins]
        simp [Draft.addJoin, Draft.warn, Join.qualifier]
      apply hdistinct
      rw [hsame]
      exact hadded

end Bodies

/-! ## Documents read without warnings -/

/-- The root entity of an entity element. -/
def rootOwner (entity : Element) : Owner :=
  ⟨none, (entity.attr? "name").getD "", .inner⟩

/-- The elements below an entity element and below the links inside it, each with the entity it
belongs to. -/
def entityContents (entity : Element) : List (Owner × Element) :=
  contents (rootOwner entity) entity.children

/-- The qualifiers of the links inside an entity element. -/
def linkQualifiers (entity : Element) : List String :=
  (entityContents entity).filterMap fun p =>
    if p.2.name = "link-entity" then (linkOwner p.2).qualifier else none

/-- The entity that a qualifier means: one that is not that of a link but the name of the root, in
any letter case, means the root. -/
def meantOwner (entity : Element) (q : Option String) : Option String :=
  q.filter fun q =>
    (linkQualifiers entity).contains q || !Text.sameName q ((entity.attr? "name").getD "")

/-- What is known of the entities of a statement once it is read. -/
def knownOf (s : Statement) : Known :=
  ⟨s.source.entity, s.joins.map Join.qualifier⟩

/-- A statement that an entity element was read into without a warning: where each part of it
comes from. -/
structure ReadQuietly (entity : Element) (s : Statement) : Prop where
  name : entity.attr? "name" = some s.source.entity
  unlabelled : s.source.label = none
  items_eq : s.items = entity.children.filterMap (itemOf? (rootOwner entity))
  joins_eq : s.joins = joinsBelow (rootOwner entity) entity.children
  groupBy_eq : s.groupBy =
    insertColumns [] ((entityContents entity).filterMap fun p => groupOf? p.1 p.2)
  orderBy_eq : retainOrders (knownOf s)
    ((entityContents entity).filterMap fun p => orderOf? p.1 p.2) = ⟨s.orderBy, []⟩
  condition_eq :
    (match Condition.chain? .and
        ((entityContents entity).filterMap fun p => conditionOf? p.1 p.2) with
      | some e => retainKnown (knownOf s) e
      | none => ⟨none, []⟩) = ⟨s.condition, []⟩
  quiet : ∀ p ∈ entityContents entity, warningsOf p.1 p.2 = []
  qualifiers_nodup : (s.source.entity :: s.joins.map Join.qualifier).Nodup
  not_stray : strayWarnings s = []

/-- A document that is read has a first entity with a name, and the statement is finished from the
draft of what stands below it. -/
theorem readBody_of_ofDocument {doc : Document} {reading : Reading Statement}
    (h : ofDocument doc = .ok reading) :
    ∃ entity others root items d, doc.root.childrenNamed "entity" = entity :: others ∧
      entity.attr? "name" = some root ∧
      readBody root (rootOwner entity) entity.children ⟨[], [], [], [], (readTop doc.root).warnings ++
        pageWarning doc.root ++ siblingWarnings doc.root⟩ = .ok (items, d) ∧
      reading =
        finish doc.comments (doc.root.flag "distinct") (readTop doc.root).value root items d := by
  rw [ofDocument] at h
  split at h
  · cases h
  cases hentities : doc.root.childrenNamed "entity" with
  | nil => simp [hentities] at h
  | cons entity others =>
    cases hname : entity.attr? "name" with
    | none => simp [hentities, hname] at h
    | some root =>
      have howner : (⟨none, root, .inner⟩ : Owner) = rootOwner entity := by
        rw [rootOwner, hname, Option.getD_some]
      simp only [hentities, hname, howner] at h
      generalize hbefore : ((readTop doc.root).warnings ++ pageWarning doc.root ++
        siblingWarnings doc.root : List Warning) = before at h
      cases hread : readBody root (rootOwner entity) entity.children ⟨[], [], [], [], before⟩ with
      | error error => simp [hread, Except.map] at h
      | ok read =>
        rw [hread] at h
        exact ⟨entity, others, root, read.1, read.2, rfl, hname, hread, (Except.ok.inj h).symm⟩

theorem readQuietly_of_ofDocument {doc : Document} {s : Statement}
    (h : ofDocument doc = .ok ⟨s, []⟩) :
    ∃ entity, doc.root.childrenNamed "entity" = [entity] ∧ ReadQuietly entity s := by
  obtain ⟨entity, others, root, items, d, hentities, hname, hread, hfinish⟩ :=
    readBody_of_ofDocument h
  simp only [finish, Reading.mk.injEq] at hfinish
  -- all warnings are in one list, so each source of warnings is silent
  obtain ⟨rfl, hwarnings⟩ := hfinish
  have hsilent := hwarnings.symm
  simp only [List.append_eq_nil_iff] at hsilent
  obtain ⟨⟨⟨hbody, hcondition⟩, horders⟩, hstray⟩ := hsilent
  have hgathers := gathers_of_readBody root _ _ _ _ _ hread
  have hgathered := hgathers.gathered
  obtain ⟨hnone, hquiet, hnodup⟩ := hgathers.quiet hbody
  -- a second entity would be warned of before the body is read
  have hsingle : others = [] := by
    simp only [List.append_eq_nil_iff, siblingWarnings, hentities] at hnone
    cases others with
    | nil => rfl
    | cons other others => simp at hnone
  subst hsingle
  refine ⟨entity, hentities, ⟨hname, rfl, hgathered.items_eq, ?_, ?_, ?_, ?_, hquiet, ?_, hstray⟩⟩
  · simpa using hgathered.joins_eq
  · exact hgathered.groupBy_eq
  · have hkeys := hgathered.orderBy_eq
    rw [List.nil_append] at hkeys
    rw [entityContents, ← hkeys]
    exact congrArg (Reading.mk _) horders
  · have hconditions := hgathered.conditions_eq
    rw [List.nil_append] at hconditions
    rw [entityContents, ← hconditions]
    exact congrArg (Reading.mk _) hcondition
  · exact hnodup (by simp)

/-- A text that is read without warnings is a document with one entity, and the statement is read
from it. -/
theorem readQuietly_of_read {xml : String} {s : Statement} (h : read xml = .ok ⟨s, []⟩) :
    ∃ doc entity, Document.parse xml = .ok doc ∧ doc.root.childrenNamed "entity" = [entity] ∧
      ReadQuietly entity s := by
  rw [read] at h
  cases hdoc : Document.parse xml with
  | error error => simp [hdoc] at h
  | ok doc =>
    rw [hdoc] at h
    obtain ⟨entity, hentity, hread⟩ := readQuietly_of_ofDocument h
    exact ⟨doc, entity, rfl, hentity, hread⟩

/-! ## Bodies by induction -/

/-- Facts about all bodies follow the links: the elements inside a link come before those behind
it. -/
theorem contents_induction {P : Owner → List Element → Prop} (nil : ∀ owner, P owner [])
    (element : ∀ owner e rest, e.name ≠ "link-entity" → P owner rest → P owner (e :: rest))
    (link : ∀ owner e rest, e.name = "link-entity" → P (linkOwner e) e.children → P owner rest →
      P owner (e :: rest)) (owner : Owner) (xs : List Element) : P owner xs := by
  refine contents.induct (fun owner xs => P owner xs)
    (fun e => e.name = "link-entity" → P (linkOwner e) e.children) ?_ ?_ ?_ ?_ owner xs
  · intro attributes children text hchildren _
    exact hchildren
  · intro name attributes children text h h'
    exact absurd h' h
  · exact nil
  · intro owner e rest hlink hrest
    by_cases h : e.name = "link-entity"
    · exact link owner e rest h (hlink h) hrest
    · exact element owner e rest h hrest

/-- The items that the entities of a body hold are those that its elements give. -/
theorem exists_holder_iff (owner : Owner) (xs : List Element) (q : Option String) (entity : String)
    (item : SelectItem) :
    (q = owner.qualifier ∧ entity = owner.entity ∧ item ∈ xs.filterMap (itemOf? owner)) ∨
        (∃ j ∈ joinsBelow owner xs, q = some j.qualifier ∧ entity = j.entity ∧ item ∈ j.items) ↔
      ∃ p ∈ contents owner xs, p.1.qualifier = q ∧ p.1.entity = entity ∧
        itemOf? p.1 p.2 = some item := by
  induction owner, xs using contents_induction with
  | nil owner => simp [contents, joinsBelow]
  | element owner e rest hname ih =>
    rw [joinsBelow_cons_of_not_link hname, contents_cons_of_not_link hname]
    simp only [List.mem_cons, exists_eq_or_imp, ← ih, filterMap_cons_toList, List.mem_append,
      Option.mem_toList]
    -- the item of the first element goes to the entity of the body
    constructor
    · rintro (⟨hq, hentity, hitem | hitem⟩ | hjoin)
      · exact .inl ⟨hq.symm, hentity.symm, hitem⟩
      · exact .inr (.inl ⟨hq, hentity, hitem⟩)
      · exact .inr (.inr hjoin)
    · rintro (⟨hq, hentity, hitem⟩ | ⟨hq, hentity, hitem⟩ | hjoin)
      · exact .inl ⟨hq.symm, hentity.symm, .inl hitem⟩
      · exact .inl ⟨hq, hentity, .inr hitem⟩
      · exact .inr hjoin
  | link owner e rest hname ihinner ih =>
    have hnone : itemOf? owner e = none := (gives_of_link owner hname).1
    rw [joinsBelow_cons_of_link hname, contents_cons_of_link hname, filterMap_cons_toList, hnone,
      Option.toList_none, List.nil_append]
    simp only [List.exists_mem_cons_iff, List.mem_append, or_and_right, exists_or, ← ih, ← ihinner,
      hnone, reduceCtorEq, and_false, false_or]
    -- the join of the link holds what the children of the link give
    constructor
    · rintro (hown | hjoin | hinner | hrest)
      · exact .inr (.inl hown)
      · exact .inl (.inl hjoin)
      · exact .inl (.inr hinner)
      · exact .inr (.inr hrest)
    · rintro ((hjoin | hinner) | hown | hrest)
      · exact .inr (.inl hjoin)
      · exact .inr (.inr (.inl hinner))
      · exact .inl hown
      · exact .inr (.inr (.inr hrest))

/-- The entity of every element is the one of the body, or that of a link inside it. -/
theorem owner_of_mem_contents (owner : Owner) (xs : List Element) :
    ∀ p ∈ contents owner xs, p.1 = owner ∨ ∃ j ∈ joinsBelow owner xs, p.1 = ownerOf j := by
  induction owner, xs using contents_induction with
  | nil owner => simp [contents]
  | element owner e rest hname ih =>
    rw [joinsBelow_cons_of_not_link hname, contents_cons_of_not_link hname]
    intro p hp
    rcases List.mem_cons.1 hp with rfl | hp
    · exact .inl rfl
    · exact ih p hp
  | link owner e rest hname ihinner ih =>
    rw [joinsBelow_cons_of_link hname, contents_cons_of_link hname]
    intro p hp
    rcases List.mem_cons.1 hp with rfl | hp
    · exact .inl rfl
    rcases List.mem_append.1 hp with hp | hp
    · rcases ihinner p hp with howner | ⟨j, hj, howner⟩
      · exact .inr ⟨_, List.mem_cons_self, howner⟩
      · exact .inr ⟨j, List.mem_cons_of_mem _ (List.mem_append_left _ hj), howner⟩
    · rcases ih p hp with howner | ⟨j, hj, howner⟩
      · exact .inl howner
      · exact .inr ⟨j, List.mem_cons_of_mem _ (List.mem_append_right _ hj), howner⟩

/-- The qualifiers of the joins are those of the links, in document order. -/
theorem map_qualifier_joinsBelow (owner : Owner) (xs : List Element) :
    (joinsBelow owner xs).map (fun j => some j.qualifier) =
      ((contents owner xs).filter fun p => p.2.name = "link-entity").map fun p =>
        (linkOwner p.2).qualifier := by
  induction owner, xs using contents_induction with
  | nil owner => simp [contents, joinsBelow]
  | element owner e rest hname ih =>
    rw [joinsBelow_cons_of_not_link hname, contents_cons_of_not_link hname, ih,
      List.filter_cons_of_neg (by simpa using hname)]
  | link owner e rest hname ihinner ih =>
    rw [joinsBelow_cons_of_link hname, contents_cons_of_link hname,
      List.filter_cons_of_pos (by simpa using hname), List.filter_append, List.map_cons,
      List.map_cons, List.map_append, List.map_append, ihinner, ih]
    rfl

/-- The joins of a body hang off its entity or off joins before them. -/
theorem parentsIn_joinsBelow (owner : Owner) (xs : List Element) :
    ∀ earlier : List String, (∀ q, owner.qualifier = some q → q ∈ earlier) →
      ParentsIn earlier (joinsBelow owner xs) := by
  induction owner, xs using contents_induction with
  | nil owner =>
    intro earlier _
    simp [joinsBelow, ParentsIn]
  | element owner e rest hname ih => rwa [joinsBelow_cons_of_not_link hname]
  | link owner e rest hname ihinner ih =>
    intro earlier howner
    rw [joinsBelow_cons_of_link hname, ParentsIn, parentsIn_append]
    refine ⟨howner, ihinner _ ?_, ih _ ?_⟩
    · intro q hq
      cases hq
      exact List.mem_append_right _ (List.mem_singleton.2 rfl)
    · intro q hq
      exact List.mem_append_left _ (List.mem_append_left _ (howner q hq))

/-! ## Qualifiers and what they mean -/

section Quiet

variable {entity : Element} {s : Statement}

theorem ReadQuietly.linkQualifiers_eq (h : ReadQuietly entity s) :
    linkQualifiers entity = s.joins.map Join.qualifier := by
  have hsome : s.joins.map Join.qualifier =
      (s.joins.map fun j => some j.qualifier).filterMap id := by
    rw [List.filterMap_map]
    simp
  rw [hsome, h.joins_eq, map_qualifier_joinsBelow, linkQualifiers, entityContents,
    List.filterMap_map, List.filterMap_filter]
  congr 1
  funext p
  simp

theorem ReadQuietly.mem_linkQualifiers (h : ReadQuietly entity s) {c : ColumnRef}
    (hc : s.Refers c) : ∀ q, c.qualifier = some q → q ∈ linkQualifiers entity := by
  intro q hq
  rcases hc with hnone | ⟨j, hj, hsome⟩
  · rw [hnone] at hq
    cases hq
  · rw [hsome] at hq
    cases hq
    rw [h.linkQualifiers_eq]
    exact List.mem_map_of_mem hj

/-- A column whose entity is known belongs to the entity that its qualifier means. -/
theorem ReadQuietly.column?_eq (h : ReadQuietly entity s) {c c' : ColumnRef}
    (hc : (knownOf s).column? c = some c') :
    c' = ⟨meantOwner entity c.qualifier, c.name⟩ ∧ s.Refers c' := by
  obtain ⟨q, name⟩ := c
  rw [Known.column?, knownOf] at hc
  rw [meantOwner, h.linkQualifiers_eq, h.name, Option.getD_some]
  cases q with
  | none =>
    cases hc
    exact ⟨rfl, .inl rfl⟩
  | some q =>
    simp only at hc
    split at hc
    · next hjoined =>
      cases hc
      refine ⟨by simp only [Option.filter, hjoined, Bool.true_or, ↓reduceIte], .inr ?_⟩
      rw [List.contains_iff_mem, List.mem_map] at hjoined
      obtain ⟨j, hj, hq⟩ := hjoined
      exact ⟨j, hj, by rw [hq]⟩
    next hfree =>
    split at hc
    · next hroot =>
      cases hc
      have hlink := Bool.eq_false_iff.2 hfree
      exact ⟨by simp only [Option.filter, hlink, hroot, Bool.not_true, Bool.or_false,
        Bool.false_eq_true, ↓reduceIte], .inl rfl⟩
    · cases hc

end Quiet

end FetchQuery.Fetch
