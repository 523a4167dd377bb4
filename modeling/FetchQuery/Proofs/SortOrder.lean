import FetchQuery.Proofs.Acceptance
import FetchQuery.Proofs.Fetch.SortTargets

/-!
# The sort order through SQL

SQL has one plain name for attributes of the root and for aliases: it is the label of a select
item if there is one, and an attribute of the root otherwise (`plainMeaning`). A grouped attribute
whose alias is its name has no label in SQL.

So a document that is translated to SQL and written again is sorted by what the plain names
mean (`sqlKey`), and the sort keys are those of the document exactly if every order element is
unambiguous (`sortKeys_kept_iff`). They are not if another attribute has the name of a sort
column as its alias (`cityAsName_resorted`).
-/

set_option autoImplicit false

namespace FetchQuery

namespace Fetch

open Xml

/-- What a plain name means in SQL: the label of a select item, or an attribute of the root. -/
def plainMeaning (entity : Element) (name : String) : SortTarget :=
  ((keptEntries entity).lookup name).getD ⟨none, name, none⟩

/-- What the sort column of an order element means in SQL. -/
def sqlKey (entity : Element) (p : Owner × Element) : Option SortTarget :=
  match p.2.attr? "attribute" with
  | some name =>
    match orderOwner entity p with
    | some q => some ⟨some q, name, none⟩
    | none => some (plainMeaning entity name)
  | none => (p.2.attr? "alias").map (plainMeaning entity)

/-- An order element that means the same in SQL: no label hides an attribute of the root, and an
alias is a label, or the name of an attribute of the root. -/
def Unambiguous (entity : Element) (p : Owner × Element) : Prop :=
  match p.2.attr? "attribute" with
  | some name => orderOwner entity p = none →
    ∀ target ∈ (keptEntries entity).lookup name, target = ⟨none, name, none⟩
  | none => ∀ label ∈ p.2.attr? "alias", ((keptEntries entity).lookup label).isSome = true ∨
    (entries entity).lookup label = some ⟨none, label, none⟩

instance (entity : Element) (p : Owner × Element) : Decidable (Unambiguous entity p) :=
  match h : p.2.attr? "attribute" with
  | some name => decidable_of_iff (orderOwner entity p = none →
      ∀ target ∈ (keptEntries entity).lookup name, target = ⟨none, name, none⟩)
    (by rw [Unambiguous, h])
  | none => decidable_of_iff (∀ label ∈ p.2.attr? "alias",
      ((keptEntries entity).lookup label).isSome = true ∨
        (entries entity).lookup label = some ⟨none, label, none⟩)
    (by rw [Unambiguous, h])

/-! ## Labels as the text spells them -/

/-- A statement that shows something has items of its own, so its text spells it as it is. -/
theorem spelled_eq_of_shown {s : Statement} {h : Holder} {item : SelectItem} {target : SortTarget}
    (hshown : Shown s h item target ∨ Shown s.spelled h item target) : s.spelled = s := by
  by_cases hempty : s.allItems = []
  · rcases hshown with hshown | hshown
    · have hitem := hshown.mem_allItems
      rw [hempty] at hitem
      cases hitem
    · -- a star shows no single attribute
      have hitem := hshown.mem_allItems
      obtain ⟨-, hjoins⟩ := List.append_eq_nil_iff.1 hempty
      rw [Statement.spelled_of_empty hempty, Statement.allItems, hjoins,
        List.append_nil, List.mem_singleton] at hitem
      subst hitem
      cases hshown.shown
  · exact Statement.spelled_eq_self hempty

theorem labels_spelled {s : Statement} {label : String} {target : SortTarget} :
    Labels s.spelled label target ↔ Labels s label target := by
  constructor
  · rintro ⟨h, item, hshown, hlabel⟩
    have hspelled := spelled_eq_of_shown (.inr hshown)
    rw [hspelled] at hshown hlabel
    exact ⟨h, item, hshown, hlabel⟩
  · rintro ⟨h, item, hshown, hlabel⟩
    rw [spelled_eq_of_shown (.inl hshown)]
    exact ⟨h, item, hshown, hlabel⟩

theorem labelsItem_spelled {s : Statement} {label : String} {target : SortTarget} :
    LabelsItem s.spelled label target ↔ LabelsItem s label target := by
  constructor
  · rintro ⟨h, item, hshown, hlabel⟩
    rw [spelled_eq_of_shown (.inr hshown)] at hshown
    exact ⟨h, item, hshown, hlabel⟩
  · rintro ⟨h, item, hshown, hlabel⟩
    rw [spelled_eq_of_shown (.inl hshown)]
    exact ⟨h, item, hshown, hlabel⟩

theorem labelsItem_comments {s : Statement} {comments : List String} {label : String}
    {target : SortTarget} :
    LabelsItem { s with comments } label target ↔ LabelsItem s label target := by
  constructor
  · rintro ⟨h, item, ⟨hh, hitem, hshown, howner⟩, hlabel⟩
    exact ⟨h, item, ⟨hh, hitem, hshown, howner⟩, hlabel⟩
  · rintro ⟨h, item, ⟨hh, hitem, hshown, howner⟩, hlabel⟩
    exact ⟨h, item, ⟨hh, hitem, hshown, howner⟩, hlabel⟩

section Quiet

variable {entity : Element} {s : Statement} (h : ReadQuietly entity s) (hs : s.spelled.Writable)

include h hs

theorem ReadQuietly.lookup_keptEntries (label : String) (target : SortTarget) :
    (keptEntries entity).lookup label = some target ↔ LabelsItem s.spelled label target := by
  have hlabels : ∀ target, (label, target) ∈ keptEntries entity → Labels s.spelled label target :=
    fun target hmem => labels_spelled.2 (h.mem_keptEntries.1 hmem).labels
  rw [lookup_eq_some_iff_mem fun a b ha hb => (hlabels a ha).unique hs (hlabels b hb),
    h.mem_keptEntries, labelsItem_spelled]

/-- An alias that is kept stands for the same as before. -/
theorem ReadQuietly.lookup_entries_of_kept {label : String} {target : SortTarget}
    (hkept : (keptEntries entity).lookup label = some target) :
    (entries entity).lookup label = some target := by
  have hlabels : ∀ target, (label, target) ∈ entries entity → Labels s.spelled label target :=
    fun target hmem => labels_spelled.2 (h.labels_of_mem_entries hmem)
  rw [lookup_eq_some_iff_mem fun a b ha hb => (hlabels a ha).unique hs (hlabels b hb)]
  exact mem_entries_of_kept (mem_of_lookup hkept)

/-- An order element means the same in SQL exactly if it is unambiguous. -/
theorem ReadQuietly.sqlKey_eq_iff (p : Owner × Element) :
    sqlKey entity p = sortKey entity p ↔ Unambiguous entity p := by
  rw [sqlKey, sortKey, Unambiguous]
  cases hattribute : p.2.attr? "attribute" with
  | some name =>
    cases howner : orderOwner entity p with
    | some q => simp
    | none =>
      simp only [plainMeaning]
      cases (keptEntries entity).lookup name <;> simp
  | none =>
    cases halias : p.2.attr? "alias" with
    | none => simp
    | some label =>
      simp only [Option.map_some, Option.bind_some, Option.mem_def, Option.some.injEq, plainMeaning,
        forall_eq']
      cases hkept : (keptEntries entity).lookup label with
      | some target => simp [h.lookup_entries_of_kept hs hkept]
      | none => simp [eq_comm]

omit hs in
theorem ReadQuietly.selected_spelled :
    ∀ c ∈ s.spelled.groupBy, ∃ item ∈ s.spelled.allItems, item.value = .column c := by
  intro c hc
  rw [Statement.groupBy_spelled] at hc
  obtain ⟨item, hitem, hvalue⟩ := h.exists_item_of_groupBy hc
  rw [Statement.spelled_eq_self (List.ne_nil_of_mem hitem)]
  exact ⟨item, hitem, hvalue⟩

end Quiet

/-! ## Through SQL and back -/

section Back

variable {entity back : Element} {s t : Statement} {comments : List String} {indent : Nat}
  (h : ReadQuietly entity s) (ht : t = { s.spelled with comments }) (hwritable : t.Writable)
  (hback : IsEntityOf t indent back)

include h ht

theorem selected_back : ∀ c ∈ t.groupBy, ∃ item ∈ t.allItems, item.value = .column c := by
  rw [ht]
  exact h.selected_spelled

include hwritable

/-- The labels of what comes back are the aliases that are kept. -/
theorem lookup_keptEntries_back (label : String) (target : SortTarget) :
    (keptEntries entity).lookup label = some target ↔ LabelsItem t label target := by
  subst ht
  rw [labelsItem_comments]
  exact h.lookup_keptEntries hwritable.of_comments label target

include hback

/-- A plain name is sorted by as what it means in SQL. -/
theorem keyMeaning_plain (name : String) (direction : Direction) :
    keyMeaning back (SortKey.ofOrder t ⟨⟨none, name⟩, direction⟩) =
      some (plainMeaning entity name) := by
  have hselected := selected_back h ht
  have hlookup := lookup_keptEntries_back h ht hwritable name
  rw [plainMeaning]
  cases hkept : (keptEntries entity).lookup name with
  | some target =>
    have hlabels := (hlookup target).1 hkept
    exact keyMeaning_of_labels hwritable hselected hback hlabels direction
  | none =>
    -- every item with a label shows an attribute, so the label would have been kept
    have hunlabelled : t.labelled? name = none := by
      rw [Statement.labelled?, List.find?_eq_none]
      intro item hitem hlabel
      have hlabel : item.label = some name := by simpa using hlabel
      obtain ⟨hd, hhd, hmem⟩ := Statement.mem_allItems.1 hitem
      obtain ⟨shown, hshown⟩ : ∃ shown, shownBy? hd.entity item.value = some shown := by
        cases hvalue : item.value with
        | column c => exact ⟨_, rfl⟩
        | aggregate call => exact ⟨_, rfl⟩
        | wildcard owner =>
          rw [hwritable.wildcard_unlabelled item hitem owner hvalue] at hlabel
          cases hlabel
      have hsome := (hlookup ⟨hd.owner, shown.1, shown.2⟩).2
        ⟨hd, item, ⟨hhd, hmem, hshown, rfl⟩, hlabel⟩
      rw [hkept] at hsome
      cases hsome
    rw [SortKey.ofOrder_of_unlabelled fun _ => hunlabelled,
      keyMeaning_ofColumn hwritable hselected hback (.inl rfl)]
    rfl

/-- What comes back is sorted by what the sort columns mean in SQL. -/
theorem sortKeys_back : sortKeys back =
    (orders entity).map fun p => (sqlKey entity p, p.2.flag "descending") := by
  have horderBy : t.orderBy = s.orderBy := by
    rw [ht]
    exact s.orderBy_spelled
  have hjoins : t.joins = s.joins := by
    rw [ht]
    exact s.joins_spelled
  -- the order elements and the sort columns correspond one to one
  rw [sortKeys_written hback, horderBy]
  symm
  rw [← List.forall₂_eq_eq_eq, List.forall₂_map_left_iff, List.forall₂_map_right_iff]
  refine h.orders_read.imp ?_
  rintro p ⟨⟨q, name⟩, direction⟩ ⟨hdirection, hcolumn, hcase⟩
  have hkey : sqlKey entity p =
      keyMeaning back (SortKey.ofOrder t ⟨⟨q, name⟩, direction⟩) := by
    rcases hcase with ⟨hattribute, howner⟩ | ⟨hattribute, halias, hroot⟩
    · simp only [sqlKey, hattribute, ← howner]
      cases q with
      | none => rw [keyMeaning_plain h ht hwritable hback]
      | some q =>
        have hrefers : t.Refers ⟨some q, name⟩ := by
          rwa [Statement.Refers, hjoins]
        rw [SortKey.ofOrder_of_unlabelled (by simp),
          keyMeaning_ofColumn hwritable (selected_back h ht) hback hrefers]
    · cases hroot
      simp only [sqlKey, hattribute, halias, Option.map_some]
      rw [keyMeaning_plain h ht hwritable hback]
  have hflag : p.2.flag "descending" = (direction == .descending) := by
    cases hdirection
    cases p.2.flag "descending" <;> rfl
  rw [hkey, hflag]

end Back

/-- The entity element of a document. -/
def rootEntity? (xml : String) : Option Element :=
  match Document.parse xml with
  | .ok doc => (doc.root.childrenNamed "entity").head?
  | .error _ => none

end Fetch

open Fetch

/-- A document that is translated to SQL without a warning, and comes back from it, is sorted by
what its sort columns mean in SQL. The sort keys are kept exactly if no order element is
ambiguous. -/
theorem sortKeys_kept_iff {xml sql : String} {layout : Sql.Layout} {s : Statement}
    (h : fetchToSql xml layout = .ok ⟨sql, []⟩) (hparse : Sql.parse sql false = .ok s)
    (indent : Nat) :
    ∃ entity back, rootEntity? xml = some entity ∧
      rootEntity? (Fetch.render indent s) = some back ∧
      sortKeys back = (orders entity).map (fun p => (sqlKey entity p, p.2.flag "descending")) ∧
      (sortKeys back = sortKeys entity ↔ ∀ p ∈ orders entity, Unambiguous entity p) := by
  obtain ⟨read, hread, rfl⟩ := fetchToSql_eq_ok h
  obtain ⟨doc, entity, hdoc, hentity, hquiet⟩ := readQuietly_of_read hread
  have hs := hquiet.parse_render hparse
  have hwritable := Sql.writable_of_parse hparse
  obtain ⟨back, hroot, hback⟩ := exists_isEntityOf s indent
  have hkeys := sortKeys_back hquiet hs hwritable hback
  refine ⟨entity, back, ?_, ?_, hkeys, ?_⟩
  · rw [rootEntity?, hdoc]
    simp [hentity]
  · rw [rootEntity?, Fetch.parse_render]
    simp [hback.childrenNamed hroot]
  · rw [hkeys, sortKeys, List.map_inj_left]
    apply forall₂_congr
    intro p _
    rw [hs] at hwritable
    rw [Prod.mk.injEq, and_iff_left rfl, hquiet.sqlKey_eq_iff hwritable.of_comments]

/-- A document that is sorted by an attribute of a link, through its alias. -/
def booksByAuthor : String :=
  "<fetch><entity name=\"book\"><link-entity name=\"author\" from=\"id\" to=\"pen\">" ++
    "<attribute name=\"name\" alias=\"n\"/></link-entity><order alias=\"n\"/></entity></fetch>"

/-- The SQL of `booksByAuthor`. -/
def booksByAuthorSql : String :=
  "SELECT author.name AS n FROM book INNER JOIN author ON book.pen = author.id ORDER BY n ASC"

/-- The statement of `booksByAuthorSql`. -/
def booksByAuthorStatement : Statement where
  comments := []
  distinct := false
  top := none
  items := []
  source := ⟨"book", none⟩
  joins := [⟨"author", none, .inner, none, "pen", "id",
    [⟨.column ⟨some "author", "name"⟩, some "n"⟩]⟩]
  condition := none
  groupBy := []
  orderBy := [⟨⟨none, "n"⟩, .ascending⟩]

theorem booksByAuthor_kept :
    fetchToSql booksByAuthor .compact = .ok ⟨booksByAuthorSql, []⟩ ∧
      Sql.parse booksByAuthorSql false = .ok booksByAuthorStatement ∧
      ∃ entity back, rootEntity? booksByAuthor = some entity ∧
        rootEntity? (Fetch.render 2 booksByAuthorStatement) = some back ∧
        sortKeys entity = [(some ⟨some "author", "name", none⟩, false)] ∧
        sortKeys back = sortKeys entity := by
  have hsql : fetchToSql booksByAuthor .compact = .ok ⟨booksByAuthorSql, []⟩ := by
    decide +kernel
  have hparse : Sql.parse booksByAuthorSql false = .ok booksByAuthorStatement := by
    decide +kernel
  have hkeys : (rootEntity? booksByAuthor).map (fun e => (sortKeys e,
      decide (∀ p ∈ orders e, Unambiguous e p))) = some
        ([(some ⟨some "author", "name", none⟩, false)], true) := by
    decide +kernel
  obtain ⟨entity, back, hentity, hback, -, hiff⟩ := sortKeys_kept_iff hsql hparse 2
  rw [hentity, Option.map_some, Option.some_inj, Prod.mk.injEq, decide_eq_true_iff] at hkeys
  exact ⟨hsql, hparse, entity, back, hentity, hback, hkeys.1, hiff.2 hkeys.2⟩

/-- A document that shows cities under the label `name`, in the order of the names. -/
def cityAsName : String :=
  "<fetch><entity name=\"account\"><attribute name=\"city\" alias=\"name\"/>" ++
    "<order attribute=\"name\"/></entity></fetch>"

/-- The statement of the SQL of `cityAsName`. -/
def cityAsNameStatement : Statement where
  comments := []
  distinct := false
  top := none
  items := [⟨.column ⟨none, "city"⟩, some "name"⟩]
  source := ⟨"account", none⟩
  joins := []
  condition := none
  groupBy := []
  orderBy := [⟨⟨none, "name"⟩, .ascending⟩]

/-- The names come back as the cities that have their label. -/
theorem cityAsName_resorted :
    fetchToSql cityAsName .pretty =
        .ok ⟨"SELECT city AS name\nFROM account\nORDER BY name ASC", []⟩ ∧
      Sql.parse "SELECT city AS name\nFROM account\nORDER BY name ASC" false =
        .ok cityAsNameStatement ∧
      (rootEntity? cityAsName).map sortKeys = some [(some ⟨none, "name", none⟩, false)] ∧
      (rootEntity? (Fetch.render 0 cityAsNameStatement)).map sortKeys =
        some [(some ⟨none, "city", none⟩, false)] := by
  refine ⟨?_, ?_, ?_, ?_⟩ <;> decide +kernel

end FetchQuery
