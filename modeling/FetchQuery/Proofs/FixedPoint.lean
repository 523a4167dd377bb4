import FetchQuery.Convert
import FetchQuery.Proofs.Fetch.Rewriting
import FetchQuery.Proofs.Fetch.SortStability
import FetchQuery.Proofs.Sql.Accepted

/-!
# From SQL to FetchXML and back

A statement that is written as FetchXML, read back as SQL and written once more need not give
the FetchXML text again. `Statement.Survives` says exactly for which statements it does
(`render_fixed_iff`): the SQL that comes back must be readable (`Statement.Reparses`), and every
sort key must come back as it was (`SortKey.Stable`). For a count of the distinct values of the
primary key the SQL that comes back is refused (`keyCount_not_fixed`).
-/

set_option autoImplicit false

namespace FetchQuery

/-- A statement whose FetchXML is a fixed point of the way back to SQL and forth again. -/
structure Statement.Survives (s : Statement) : Prop extends s.Reparses where
  sort_keys : ∀ item ∈ s.orderBy, (Fetch.SortKey.ofOrder s item).Stable s

instance (s : Statement) : Decidable s.Survives :=
  decidable_of_iff (s.Reparses ∧ ∀ item ∈ s.orderBy, (Fetch.SortKey.ofOrder s item).Stable s)
    ⟨fun ⟨hreparses, hkeys⟩ => ⟨hreparses, hkeys⟩, fun h => ⟨h.toReparses, h.sort_keys⟩⟩

namespace Fetch

/-- A root whose name is not the qualifier of a join gives no warning. -/
theorem rootWarnings_eq_nil {s : Statement} (hs : s.WellBound)
    (hroot : ∀ j ∈ s.joins, Text.sameName s.source.entity j.qualifier = false) :
    rootWarnings s.source.entity (nestedJoins s) = [] := by
  rw [rootWarnings_eq, List.map_eq_nil_iff, List.filter_eq_nil_iff]
  intro j hj hsame
  have hdiffer := hroot j ((JoinForest.mem_preorder_iff hs.isForest).1 hj)
  rw [Text.sameName, beq_eq_false_iff_ne] at hdiffer
  exact hdiffer (by rw [beq_iff_eq.1 hsame])

/-- The SQL text of a returned statement is read as this statement, if it is read at all. -/
theorem parse_render_returned {s s₂ : Statement} (hs : s.Writable) {condition : Option Condition}
    (hlower : condition.map (Filter.lower · false) = s.condition.map (Filter.lower · false))
    {layout : Sql.Layout}
    (h : Sql.parse (Sql.render layout (returned s condition)) false = .ok s₂) :
    s₂ = returned s condition := by
  rcases Sql.parse_render_legible (legible_returned hs hlower) layout with hok | ⟨-, e, herror⟩
  · rw [hok] at h
    exact (Except.ok.inj h).symm
  · rw [herror] at h
    cases h

theorem fixed_iff {s : Statement} (hs : s.Writable) (hcomments : s.comments = []) (indent : Nat)
    (layout : Sql.Layout) :
    (∃ sql s₂, fetchToSql (render indent s) layout = .ok ⟨sql, []⟩ ∧
      Sql.parse sql false = .ok s₂ ∧ render indent s₂ = render indent s) ↔ s.Survives := by
  obtain ⟨condition, hread, hlower⟩ := exists_read_render hs.toWellBound indent
  rw [returnedComments, hcomments, List.map_nil] at hread
  have hback : fetchToSql (render indent s) layout =
      .ok ⟨Sql.render layout (returned s condition),
        rootWarnings s.source.entity (nestedJoins s)⟩ := by
    rw [fetchToSql, hread]
    rfl
  have hrender := render_returned_iff hs.toWellBound hcomments hlower indent
  simp only [ofOrder_returned_iff hs] at hrender
  constructor
  · rintro ⟨sql, s₂, hsql, hparse, htext⟩
    rw [hback] at hsql
    cases Reading.mk.inj (Except.ok.inj hsql) with
    | intro hsql _ =>
      subst hsql
      obtain rfl := parse_render_returned hs hlower hparse
      exact ⟨(writable_returned_iff hs hlower).1 (Sql.writable_of_parse hparse), hrender.1 htext⟩
  · rintro ⟨hreparses, hkeys⟩
    have hwritable := (writable_returned_iff hs hlower).2 hreparses
    refine ⟨_, returned s condition, ?_, Sql.parse_render hwritable layout, hrender.2 hkeys⟩
    rw [hback, rootWarnings_eq_nil hs.toWellBound hreparses.root_name]

end Fetch

/-- A statement read from a text without comments is written as FetchXML that comes back
without warnings, as SQL that is read and written as the same FetchXML, exactly if it
survives. -/
theorem render_fixed_iff {text : String} {lenient : Bool} {s : Statement}
    (h : Sql.parse text lenient = .ok s)
    (hcomments : ∀ t ∈ tokenize text, t.kind.isComment = false) (indent : Nat)
    (layout : Sql.Layout) :
    (∃ sql s₂, fetchToSql (Fetch.render indent s) layout = .ok ⟨sql, []⟩ ∧
      Sql.parse sql false = .ok s₂ ∧ Fetch.render indent s₂ = Fetch.render indent s) ↔
        s.Survives :=
  Fetch.fixed_iff (Sql.writable_of_parse h) (Sql.comments_of_parse h hcomments) indent layout

/-- A text with a label for the root, a join, a grouping column that is not selected, a negated
condition, and sort columns by label and by attribute. -/
def kindsText : String :=
  "SELECT b.kind, COUNT(*) n FROM book b JOIN shop s ON s.id = b.shop " ++
    "WHERE NOT b.cost > 10 GROUP BY b.kind, s.city ORDER BY n, b.kind"

/-- The statement of `kindsText`. -/
def kinds : Statement where
  comments := []
  distinct := false
  top := none
  items := [⟨.column ⟨none, "kind"⟩, none⟩, ⟨.aggregate ⟨.count, .star, false⟩, some "n"⟩]
  source := ⟨"book", some "b"⟩
  joins := [⟨"shop", some "s", .inner, none, "shop", "id", []⟩]
  condition := some (.not (.test ⟨none, "cost"⟩
    (.compare .gt (.number ⟨false, 10, 0, by decide, by decide, by decide⟩))))
  groupBy := [⟨none, "kind"⟩, ⟨some "s", "city"⟩]
  orderBy := [⟨⟨none, "n"⟩, .ascending⟩, ⟨⟨none, "kind"⟩, .ascending⟩]

theorem parse_kindsText : Sql.parse kindsText false = .ok kinds := by
  decide +kernel

theorem isComment_kindsText : ∀ t ∈ tokenize kindsText, t.kind.isComment = false := by
  decide +kernel

theorem render_fixed_kinds :
    Sql.parse kindsText false = .ok kinds ∧
      (∀ t ∈ tokenize kindsText, t.kind.isComment = false) ∧
      ∃ sql s₂, fetchToSql (Fetch.render 2 kinds) .pretty = .ok ⟨sql, []⟩ ∧
        Sql.parse sql false = .ok s₂ ∧ Fetch.render 2 s₂ = Fetch.render 2 kinds :=
  ⟨parse_kindsText, isComment_kindsText,
    (render_fixed_iff parse_kindsText isComment_kindsText 2 .pretty).2 (by decide +kernel)⟩

/-- A text that counts the distinct values of the primary key. -/
def keyCountText : String :=
  "SELECT COUNT(DISTINCT accountid) FROM account"

/-- The statement of `keyCountText`. -/
def keyCount : Statement where
  comments := []
  distinct := false
  top := none
  items := [⟨.aggregate ⟨.count, .column ⟨none, "accountid"⟩, true⟩, none⟩]
  source := ⟨"account", none⟩
  joins := []
  condition := none
  groupBy := []
  orderBy := []

/-- The distinct values of the primary key come back as a distinct count of all rows, which is
no SQL. -/
theorem keyCount_not_fixed :
    Sql.parse keyCountText false = .ok keyCount ∧
      (∀ t ∈ tokenize keyCountText, t.kind.isComment = false) ∧
      ∀ indent layout, ¬∃ sql s₂, fetchToSql (Fetch.render indent keyCount) layout = .ok ⟨sql, []⟩ ∧
        Sql.parse sql false = .ok s₂ ∧ Fetch.render indent s₂ = Fetch.render indent keyCount := by
  have hparse : Sql.parse keyCountText false = .ok keyCount := by
    decide +kernel
  refine ⟨hparse, by decide +kernel, fun indent layout hfixed => ?_⟩
  have hsurvives := (Fetch.fixed_iff (Sql.writable_of_parse hparse) rfl indent layout).1 hfixed
  exact hsurvives.primary_key _ List.mem_cons_self rfl

end FetchQuery
