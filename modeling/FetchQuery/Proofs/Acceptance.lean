import FetchQuery.Convert
import FetchQuery.Proofs.Fetch.QuietStatement
import FetchQuery.Proofs.Sql.Accepted

/-!
# Which documents give SQL that is accepted

A document may be translated to SQL without a warning, and the SQL be refused nevertheless: not
every rule of the SQL reader is checked when a document is read. `Statement.Acceptable` lists the
rules that are not, and a translation without warnings is accepted exactly if the statement keeps
them (`parse_fetchToSql_iff`). All other rules hold by themselves.

One of the gaps is hit by a document that is written for `COUNT(DISTINCT accountid)`: a count of
the primary key is read as a count of all rows, which SQL has only without `DISTINCT`
(`countedKeys_refused`).
-/

set_option autoImplicit false

namespace FetchQuery

/-- The rules of the SQL reader that a document can break without a warning. -/
structure Statement.Acceptable (s : Statement) : Prop where
  /-- No name is empty. -/
  named : s.Named
  /-- Qualifiers differ also where letter case does not count; a warning is given only for equal
  ones. -/
  qualifiers_distinct : s.qualifiers.Pairwise fun q q' => Text.sameName q q' = false
  /-- Rows are not counted as distinct values. -/
  rows_counted : ∀ item ∈ s.allItems, ∀ call, item.value = .aggregate call →
    call.argument = .star → call.distinct = false
  /-- Beside grouping columns nothing else is selected; a warning is given only if there is an
  aggregate. -/
  grouped : s.groupBy ≠ [] → ∀ item ∈ s.allItems,
    (∀ owner, item.value ≠ .wildcard owner) ∧ ∀ c, item.value = .column c → c ∈ s.groupBy
  /-- No two result columns have the same label. -/
  labels_distinct : (s.resultLabels.map Text.lower).Nodup

/-- Comments do not matter for whether a statement is writable. -/
theorem Statement.Writable.of_comments {s : Statement} {comments : List String}
    (h : Statement.Writable { s with comments }) : s.Writable := by
  obtain ⟨hsource, hjoins, hitems, hcondition, hgroupBy, horderBy⟩ := h.named
  exact ⟨⟨⟨h.parent_earlier, h.root_items, h.join_items, h.condition_columns, h.groupBy_columns,
    h.orderBy_columns, h.items_ne_nil, h.among_ne_nil⟩, h.qualifiers_distinct, h.star_count,
    h.star_root, h.grouped⟩, ⟨hsource, hjoins, hitems, hcondition, hgroupBy, horderBy⟩,
    h.wildcard_unlabelled, h.labels_distinct, h.labels_unselected⟩

/-! ## A star alone -/

namespace Statement

/-- A statement with a star as the only item of its root. -/
def withStar (s : Statement) : Statement :=
  { s with items := [⟨.wildcard none, none⟩] }

section Star

variable {s : Statement}

/-- Stars give no labels to result columns. -/
theorem resultLabels_of_stars (h : ∀ item ∈ s.allItems, item = ⟨.wildcard none, none⟩) :
    s.resultLabels = [] := by
  rw [resultLabels_eq, List.flatMap_eq_nil_iff]
  intro hd hhd
  rw [List.filterMap_eq_nil_iff]
  intro item hitem
  rw [h item (mem_allItems.2 ⟨hd, hhd, hitem⟩)]
  rfl

variable (hempty : s.allItems = [])

include hempty

theorem allItems_withStar : s.withStar.allItems = [⟨.wildcard none, none⟩] := by
  obtain ⟨-, hjoins⟩ := List.append_eq_nil_iff.1 hempty
  simp [withStar, allItems, hjoins]

theorem resultLabels_withStar : s.withStar.resultLabels = [] := by
  apply resultLabels_of_stars
  rw [allItems_withStar hempty]
  simp

theorem named_withStar_iff : s.withStar.Named ↔ s.Named := by
  constructor
  · rintro ⟨hsource, hjoins, -, hcondition, hgroupBy, horderBy⟩
    exact ⟨hsource, hjoins, by simp [hempty], hcondition, hgroupBy, horderBy⟩
  · rintro ⟨hsource, hjoins, -, hcondition, hgroupBy, horderBy⟩
    refine ⟨hsource, hjoins, ?_, hcondition, hgroupBy, horderBy⟩
    rw [allItems_withStar hempty]
    simp [SelectItem.names, SelectValue.names]

theorem isAggregate_withStar (hgroupBy : s.groupBy = []) : s.withStar.isAggregate = false := by
  rw [isAggregate, allItems_withStar hempty, withStar, hgroupBy]
  rfl

/-- Nothing can go wrong with a star but the names. -/
theorem writable_withStar_iff (hgroupBy : s.groupBy = []) (hresolved : s.withStar.Resolved) :
    s.withStar.Writable ↔
      s.Named ∧ s.qualifiers.Pairwise fun q q' => Text.sameName q q' = false := by
  have hitems := allItems_withStar hempty
  have hlabels := resultLabels_withStar hempty
  have hplain := isAggregate_withStar hempty hgroupBy
  obtain ⟨-, hjoins⟩ := List.append_eq_nil_iff.1 hempty
  constructor
  · exact fun hw => ⟨(named_withStar_iff hempty).1 hw.named, hw.qualifiers_distinct⟩
  · rintro ⟨hnamed, hqualifiers⟩
    refine ⟨⟨hresolved, hqualifiers, by simp [hitems], ?_, by simp [hplain]⟩,
      (named_withStar_iff hempty).2 hnamed, by simp [hitems], by simp [hlabels], by simp [hlabels]⟩
    intro j hj item hitem
    rw [List.flatMap_eq_nil_iff.1 hjoins j hj] at hitem
    cases hitem

theorem acceptable_iff_of_empty :
    s.Acceptable ↔ s.Named ∧ s.qualifiers.Pairwise fun q q' => Text.sameName q q' = false := by
  constructor
  · exact fun ha => ⟨ha.named, ha.qualifiers_distinct⟩
  · rintro ⟨hnamed, hqualifiers⟩
    have hlabels : s.resultLabels = [] := resultLabels_of_stars (by simp [hempty])
    exact ⟨hnamed, hqualifiers, by simp [hempty], by simp [hempty], by simp [hlabels]⟩

end Star

end Statement

namespace Fetch

open Xml

section Quiet

variable {entity : Element} {s : Statement} (h : ReadQuietly entity s)

include h

/-- Beside an aggregate nothing is selected that is neither aggregated nor grouped: it would have
been warned of. -/
theorem ReadQuietly.grouped_of_isAggregate
    (hany : ∃ item ∈ s.allItems, item.isAggregate = true) :
    ∀ item ∈ s.allItems,
      (∀ owner, item.value ≠ .wildcard owner) ∧ ∀ c, item.value = .column c → c ∈ s.groupBy := by
  have hstray := h.not_stray
  rw [strayWarnings, if_pos (List.any_eq_true.2 hany), List.filterMap_eq_nil_iff] at hstray
  intro item hitem
  have hnone := hstray item hitem
  constructor
  · intro owner hvalue
    rw [hvalue] at hnone
    cases hnone
  · intro c hvalue
    rw [hvalue] at hnone
    by_contra hfree
    simp [hfree] at hnone

theorem ReadQuietly.writable_iff_of_items (hne : s.allItems ≠ []) : s.Writable ↔ s.Acceptable := by
  have hresolved : s.Resolved := by
    have hspelled := h.resolved
    rwa [Statement.spelled_eq_self hne] at hspelled
  constructor
  · intro hw
    refine ⟨hw.named, hw.qualifiers_distinct, ?_, ?_, hw.labels_distinct⟩
    · intro item hitem call hvalue hstar
      exact (hw.star_count item hitem call hvalue hstar).2
    · intro hgroup
      obtain ⟨c, hc⟩ := List.exists_mem_of_ne_nil _ hgroup
      exact hw.grouped (s.isAggregate_iff.2 (.inl ⟨c, hc⟩))
  · intro ha
    refine ⟨⟨hresolved, ha.qualifiers_distinct, ?_, ?_, ?_⟩, ha.named, h.plainWildcards,
      ha.labels_distinct, ?_⟩
    · intro item hitem call hvalue hstar
      obtain ⟨hd, hhd, hmem⟩ := Statement.mem_allItems.1 hitem
      exact ⟨(h.star hhd hmem hvalue hstar).1, ha.rows_counted item hitem call hvalue hstar⟩
    · intro j hj item hitem call hvalue hstar
      have hroot := (h.star (Statement.join_mem_holders hj) hitem hvalue hstar).2
      cases hroot
    · intro haggregate
      rcases s.isAggregate_iff.1 haggregate with ⟨c, hc⟩ | hany
      · exact ha.grouped (List.ne_nil_of_mem hc)
      · exact h.grouped_of_isAggregate hany
    · rw [h.unselectedNames_eq_nil]
      simp

/-- A document without items groups by nothing, and its text has a star alone. -/
theorem ReadQuietly.writable_iff_of_empty (hempty : s.allItems = []) :
    s.spelled.Writable ↔ s.Acceptable := by
  have hgroupBy : s.groupBy = [] := by
    rw [List.eq_nil_iff_forall_not_mem]
    intro c hc
    obtain ⟨item, hitem, -⟩ := h.exists_item_of_groupBy hc
    rw [hempty] at hitem
    cases hitem
  have hresolved := h.resolved
  rw [Statement.spelled_of_empty hempty] at hresolved ⊢
  rw [Statement.acceptable_iff_of_empty hempty]
  exact Statement.writable_withStar_iff hempty hgroupBy hresolved

theorem ReadQuietly.writable_iff : s.spelled.Writable ↔ s.Acceptable := by
  by_cases hempty : s.allItems = []
  · exact h.writable_iff_of_empty hempty
  · rw [Statement.spelled_eq_self hempty]
    exact h.writable_iff_of_items hempty

/-- The SQL of a document that is read without warnings is accepted as the statement it spells, if
it is accepted. -/
theorem ReadQuietly.parse_render {layout : Sql.Layout} {s₂ : Statement}
    (hparse : Sql.parse (Sql.render layout s) false = .ok s₂) :
    s₂ = { s.spelled with comments := Sql.commentLines s } := by
  rcases Sql.parse_render_cases h.resolved h.plainWildcards layout with hok | ⟨-, e, herror⟩
  · rw [hok] at hparse
    exact (Except.ok.inj hparse).symm
  · rw [herror] at hparse
    cases hparse

end Quiet

end Fetch

/-- The text of a translation is that of the statement that is read, with the warnings of the
reading. -/
theorem fetchToSql_eq_ok {xml : String} {layout : Sql.Layout} {sql : String}
    {warnings : List Fetch.Warning} (h : fetchToSql xml layout = .ok ⟨sql, warnings⟩) :
    ∃ s, Fetch.read xml = .ok ⟨s, warnings⟩ ∧ sql = Sql.render layout s := by
  rw [fetchToSql] at h
  cases hread : Fetch.read xml with
  | error e =>
    rw [hread] at h
    cases h
  | ok read =>
    rw [hread] at h
    cases h
    exact ⟨read.value, rfl, rfl⟩

/-- The SQL of a document that is translated without a warning is accepted under the default
options exactly if the statement keeps the rules that are not checked before. -/
theorem parse_fetchToSql_iff {xml sql : String} {layout : Sql.Layout}
    (h : fetchToSql xml layout = .ok ⟨sql, []⟩) :
    ∃ s, Fetch.read xml = .ok ⟨s, []⟩ ∧
      ((∃ s₂, Sql.parse sql false = .ok s₂) ↔ s.Acceptable) := by
  obtain ⟨s, hread, rfl⟩ := fetchToSql_eq_ok h
  obtain ⟨doc, entity, -, -, hquiet⟩ := Fetch.readQuietly_of_read hread
  refine ⟨s, hread, ?_⟩
  rw [← hquiet.writable_iff]
  constructor
  · rintro ⟨s₂, hparse⟩
    -- what is accepted is the statement as it is spelled, up to its comments
    have hwritable := Sql.writable_of_parse hparse
    rw [hquiet.parse_render hparse] at hwritable
    exact hwritable.of_comments
  · intro hwritable
    rcases Sql.parse_render_cases hquiet.resolved hquiet.plainWildcards layout with hok | ⟨hnot, -⟩
    · exact ⟨_, hok⟩
    · exact absurd hwritable hnot

/-- A document that lists the names of accounts in the order of their cities. -/
def cityOrder : String :=
  "<fetch><entity name=\"account\"><attribute name=\"name\" alias=\"n\" />" ++
    "<order attribute=\"city\" descending=\"true\" /></entity></fetch>"

theorem cityOrder_accepted :
    fetchToSql cityOrder .compact =
        .ok ⟨"SELECT name AS n FROM account ORDER BY city DESC", []⟩ ∧
      ∃ s, Fetch.read cityOrder = .ok ⟨s, []⟩ ∧ s.Acceptable := by
  have hsql : fetchToSql cityOrder .compact =
      .ok ⟨"SELECT name AS n FROM account ORDER BY city DESC", []⟩ := by
    decide +kernel
  obtain ⟨s, hread, hiff⟩ := parse_fetchToSql_iff hsql
  refine ⟨hsql, s, hread, hiff.1 ?_⟩
  exact ⟨⟨[], false, none, [⟨.column ⟨none, "name"⟩, some "n"⟩], ⟨"account", none⟩, [], none, [],
    [⟨⟨none, "city"⟩, .descending⟩]⟩, by decide +kernel⟩

/-- A document that counts the distinct keys of accounts. -/
def countedKeys : String :=
  "<fetch aggregate=\"true\"><entity name=\"account\">" ++
    "<attribute name=\"accountid\" alias=\"n\" aggregate=\"count\" distinct=\"true\"/>" ++
    "</entity></fetch>"

/-- The distinct keys are translated to a distinct count of all rows, which is no SQL. -/
theorem countedKeys_refused :
    fetchToSql countedKeys .pretty = .ok ⟨"SELECT COUNT(DISTINCT *) AS n\nFROM account", []⟩ ∧
      ∃ e, Sql.parse "SELECT COUNT(DISTINCT *) AS n\nFROM account" false = .error e :=
  ⟨by decide +kernel, ⟨.starArgument .count true, ⟨1, 23, 22⟩⟩, by decide +kernel⟩

end FetchQuery
