import FetchQuery.Proofs.Sql.Grammar
import FetchQuery.Proofs.Sql.InStepStatement

/-!
# The sort columns of a text

The sort columns of a text are found among its tokens without reading the text: they stand behind
`ORDER BY`, up to the first token that cannot belong to a sort clause (`sortColumns`). Every other
clause leaves the word `ORDER` alone, so these are the columns that a reading takes them for. In a
statement that is read, every sort column that is written with a qualifier has become the column
of the entity that the qualifier names (`orderBy_of_parse`).
-/

set_option autoImplicit false

namespace FetchQuery

/-! ## Sort columns among tokens -/

/-- The columns that are named one after another, up to a token that stands in no sort clause. -/
def columnsFrom : List TokenKind → List ColumnRef
  | .identifier q :: .symbol .dot :: .identifier name :: rest => ⟨some q, name⟩ :: columnsFrom rest
  | .identifier name :: rest => ⟨none, name⟩ :: columnsFrom rest
  | .symbol .comma :: rest => columnsFrom rest
  | .keyword .asc :: rest => columnsFrom rest
  | .keyword .desc :: rest => columnsFrom rest
  | _ => []

/-- The sort columns of a text as they are written, behind `ORDER` and `BY`. -/
def sortColumns (text : String) : List ColumnRef :=
  columnsFrom ((((Sql.spoken (tokenize text)).map Token.kind).dropWhile
    (· != .keyword .order)).drop 2)

theorem columnsFrom_column (column : ColumnRef) {rest : List TokenKind}
    (h : column.qualifier = none → rest.head? ≠ some (.symbol .dot)) :
    columnsFrom (column.kinds ++ rest) = column :: columnsFrom rest := by
  obtain ⟨qualifier, name⟩ := column
  cases qualifier with
  | some q => rfl
  | none =>
    have hdot := h rfl
    cases rest with
    | nil => rfl
    | cons k rest =>
      cases k with
      | symbol sign =>
        cases sign with
        | dot => simp at hdot
        | _ => rfl
      | _ => rfl

/-- The entity that a qualifier names in a statement: the root, or the join with the given
qualifier. -/
def Statement.Names (s : Statement) (q : String) : Option String → Prop
  | none => Text.sameName s.source.qualifier q = true
  | some p => p ∈ s.joins.map Join.qualifier ∧ Text.sameName p q = true

instance (s : Statement) (q : String) : (owner : Option String) → Decidable (s.Names q owner)
  | none => inferInstanceAs (Decidable (_ = _))
  | some _ => inferInstanceAs (Decidable (_ ∧ _))

theorem Statement.Names.unique {s : Statement} (hs : s.WellBound) {q : String}
    {owner owner' : Option String} (h : s.Names q owner) (h' : s.Names q owner') :
    owner = owner' := by
  have hnodup := Statement.pairwise_sameName_iff.1 hs.qualifiers_distinct
  obtain ⟨hroot, hjoins⟩ := List.nodup_cons.1 hnodup
  cases owner with
  | none =>
    cases owner' with
    | none => rfl
    | some p =>
      obtain ⟨hmem, hp⟩ := h'
      refine absurd ?_ hroot
      rw [Text.sameName_iff.1 h, ← Text.sameName_iff.1 hp]
      exact List.mem_map_of_mem hmem
  | some p =>
    obtain ⟨hmem, hp⟩ := h
    cases owner' with
    | none =>
      refine absurd ?_ hroot
      rw [Text.sameName_iff.1 h', ← Text.sameName_iff.1 hp]
      exact List.mem_map_of_mem hmem
    | some p' =>
      obtain ⟨hmem', hp'⟩ := h'
      have hlower := (Text.sameName_iff.1 hp).trans (Text.sameName_iff.1 hp').symm
      rw [List.inj_on_of_nodup_map hjoins hmem hmem' hlower]

namespace Sql

/-! ## Reading the sort clause -/

/-- A sort column and what is read from it: one with a qualifier is bound. -/
def SortsAs (scope : Scope) (written : ColumnRef) (item : OrderItem) : Prop :=
  written.qualifier ≠ none → ∃ owner, scope.bind written = .ok (item.column, owner)

section Clause

variable {scope : Scope} {labels : List String} {c c' : Cursor} (hends : EndsOnce c.rest)

include hends

/-- A direction names no column. -/
theorem columnsFrom_direction {direction' : Direction} (h : direction c = .ok direction' c') :
    EndsOnce c'.rest ∧ columnsFrom c.kinds = columnsFrom c'.kinds := by
  rcases (eat_bind_eq_ok (by simp)).1 h with ⟨c₁, hdesc, h⟩ | ⟨-, h⟩
  · cases h
    exact ⟨hdesc.ends hends, by rw [hdesc.kinds_eq hends]; rfl⟩
  · rcases (eat_bind_eq_ok (by simp)).1 h with ⟨c₁, hasc, h⟩ | ⟨-, h⟩
    · cases h
      exact ⟨hasc.ends hends, by rw [hasc.kinds_eq hends]; rfl⟩
    · cases h
      exact ⟨hends, rfl⟩

theorem columnsFrom_orderItem {item : OrderItem} (h : orderItem scope labels c = .ok item c') :
    EndsOnce c'.rest ∧ ∃ written, columnsFrom c.kinds = written :: columnsFrom c'.kinds ∧
      SortsAs scope written item := by
  obtain ⟨position, c₀, hposition, hcolumn⟩ := bind_eq_ok.1 h
  cases hposition
  obtain ⟨written, c₁, hwritten, hbound⟩ := bind_eq_ok.1 hcolumn
  obtain ⟨hpast, hdot⟩ := (columnRef_eq_ok hends).1 hwritten
  have hkinds : columnsFrom c.kinds = written :: columnsFrom c₁.kinds := by
    rw [hpast.kinds_eq hends, columnsFrom_column]
    intro hnone
    simpa [Cursor.kinds, Cursor.rest] using hdot hnone
  have hdone : ∀ column, (∀ direction', SortsAs scope written ⟨column, direction'⟩) →
      (direction >>= fun direction' => pure (⟨column, direction'⟩ : OrderItem)) c₁ = .ok item c' →
      EndsOnce c'.rest ∧ ∃ written, columnsFrom c.kinds = written :: columnsFrom c'.kinds ∧
        SortsAs scope written item := by
    -- labels and bound columns go on in the same way
    intro column hsorts hdirection
    obtain ⟨direction', c₂, hdirection, hpure⟩ := bind_eq_ok.1 hdirection
    cases hpure
    obtain ⟨hends', hsame⟩ := columnsFrom_direction (hpast.ends hends) hdirection
    exact ⟨hends', written, by rw [hkinds, hsame], hsorts direction'⟩
  split at hbound
  · next hlabel =>
    -- a column with a qualifier is no label
    rw [Bool.and_eq_true, Option.isNone_iff_eq_none] at hlabel
    exact hdone written (fun _ hqualified => absurd hlabel.1 hqualified) hbound
  · obtain ⟨bound, c₂, hin, hafter⟩ := bind_eq_ok.1 hbound
    cases hresult : scope.bind written with
    | error fault =>
      rw [hresult] at hin
      cases hin
    | ok result =>
      rw [hresult] at hin
      cases hin
      exact hdone bound.1 (fun _ _ => ⟨bound.2, hresult⟩) hafter

theorem columnsFrom_commaItems {n : Nat} {items : List OrderItem}
    (h : commaItems (orderItem scope labels) n c = .ok items c') :
    EndsOnce c'.rest ∧ ∃ columns, columnsFrom c.kinds = columns ++ columnsFrom c'.kinds ∧
      List.Forall₂ (SortsAs scope) columns items := by
  induction n generalizing c items with
  | zero =>
    cases h
    exact ⟨hends, [], rfl, .nil⟩
  | succ n ih =>
    rcases (eat_bind_eq_ok (by simp)).1 h with ⟨c₁, hcomma, hafter⟩ | ⟨-, hafter⟩
    · obtain ⟨first, c₂, hfirst, hitems⟩ := bind_eq_ok.1 hafter
      obtain ⟨rest, c₃, hrest, hpure⟩ := bind_eq_ok.1 hitems
      cases hpure
      obtain ⟨hends₂, written, hwritten, hsorts⟩ := columnsFrom_orderItem (hcomma.ends hends) hfirst
      obtain ⟨hends₃, columns, hcolumns, hall⟩ := ih hends₂ hrest
      refine ⟨hends₃, written :: columns, ?_, .cons hsorts hall⟩
      calc columnsFrom c.kinds = columnsFrom c₁.kinds := by rw [hcomma.kinds_eq hends]; rfl
        _ = written :: columnsFrom c₂.kinds := hwritten
        _ = written :: columns ++ columnsFrom c'.kinds := by rw [hcolumns, List.cons_append]
    · cases hafter
      exact ⟨hends, [], rfl, .nil⟩

/-- The columns of a sort clause stand behind `ORDER` and `BY`. -/
theorem columnsFrom_orderByClause {items : List OrderItem}
    (hat : c.current.kind = .keyword .order) (h : orderByClause scope labels c = .ok items c') :
    ∃ columns, columnsFrom (c.kinds.drop 2) = columns ++ columnsFrom c'.kinds ∧
      List.Forall₂ (SortsAs scope) columns items := by
  rcases (eat_bind_eq_ok (by simp)).1 h with ⟨c₁, horder, hafter⟩ | ⟨hno, -⟩
  · obtain ⟨_, c₂, hby, hlist⟩ := bind_eq_ok.1 hafter
    have hby := Cursor.past_singleton.2 ((expect_eq_ok (by simp)).1 hby)
    have hpast : c.Past [.keyword .order, .keyword .by] c₂ := ⟨c₁, horder, hby⟩
    obtain ⟨first, c₃, hfirst, hremaining⟩ := bind_eq_ok.1 hlist
    obtain ⟨n, c₄, hn, hitems⟩ := bind_eq_ok.1 hremaining
    cases hn
    obtain ⟨rest, c₅, hrest, hpure⟩ := bind_eq_ok.1 hitems
    cases hpure
    obtain ⟨hends₃, written, hwritten, hsorts⟩ := columnsFrom_orderItem (hpast.ends hends) hfirst
    obtain ⟨-, columns, hcolumns, hall⟩ := columnsFrom_commaItems hends₃ hrest
    refine ⟨written :: columns, ?_, .cons hsorts hall⟩
    have hkinds : c.kinds.drop 2 = c₂.kinds := by rw [hpast.kinds_eq hends]; rfl
    calc columnsFrom (c.kinds.drop 2) = columnsFrom c₂.kinds := by rw [hkinds]
      _ = written :: columnsFrom c₃.kinds := hwritten
      _ = written :: columns ++ columnsFrom c'.kinds := by rw [hcolumns, List.cons_append]
  · exact absurd hat hno

end Clause

/-! ## Reading statements -/

theorem orderByClause_of_ne {scope : Scope} {labels : List String} {c : Cursor}
    (h : c.current.kind ≠ .keyword .order) : orderByClause scope labels c = .ok [] c :=
  eat_bind_of_ne h

theorem kind_of_statementEnd {c c' : Cursor} {a : Unit} (h : statementEnd c = .ok a c') :
    c'.current.kind = .endOfInput ∧ (c.current.kind = .symbol .semicolon ∨ c' = c) := by
  obtain ⟨semicolon, c₁, heat, hend⟩ := bind_eq_ok.1 h
  have hstays : c' = c₁ ∧ c₁.current.kind = .endOfInput := by
    obtain ⟨k, _, hk, hstays⟩ := bind_eq_ok.1 hend
    obtain ⟨hkind, rfl⟩ := EStateM.Result.ok.inj hk
    cases k with
    | endOfInput =>
      cases hstays
      exact ⟨rfl, hkind⟩
    | keyword word => cases word <;> cases hstays
    | _ => cases hstays
  obtain ⟨rfl, hkind⟩ := hstays
  refine ⟨hkind, ?_⟩
  by_cases hat : c.current.kind = .symbol .semicolon
  · exact .inl hat
  · rw [eatSymbol, eat_of_ne hat] at heat
    cases heat
    exact .inr rfl

/-- What closing a statement says about it: no sort column is left, the input is at its end, and
the select list was bound. -/
theorem closing_eq_ok {comments : List String} {o : Opening} {m : Middle}
    {orderBy : List OrderItem} {s : Statement} {c c' : Cursor}
    (h : closing comments o m orderBy c = .ok s c') :
    columnsFrom c.kinds = [] ∧ c'.current.kind = .endOfInput ∧ s.source = o.source ∧
      s.orderBy = orderBy ∧
      SelectList.bind m.scope o.pending s.groupBy m.joins = .ok (s.items, s.joins) := by
  obtain ⟨top, c₁, hlimit, hafter⟩ := bind_eq_ok.1 h
  obtain ⟨_, c₂, hend, hlist⟩ := bind_eq_ok.1 hafter
  obtain ⟨owned, c₃, hbind, hpure⟩ := bind_eq_ok.1 hlist
  cases hpure
  obtain ⟨hkind, hfirst⟩ := kind_of_statementEnd hend
  rw [bindSelectList] at hbind
  have hbound : c' = c₂ ∧ SelectList.bind m.scope o.pending m.groupBy m.joins = .ok owned := by
    cases hresult : SelectList.bind m.scope o.pending m.groupBy m.joins with
    | error e =>
      rw [hresult] at hbind
      cases hbind
    | ok result =>
      rw [hresult] at hbind
      cases hbind
      exact ⟨rfl, rfl⟩
  obtain ⟨rfl, hbound⟩ := hbound
  refine ⟨?_, hkind, rfl, rfl, hbound⟩
  rw [Cursor.kinds, Cursor.rest, List.map_cons]
  by_cases hat : c.current.kind = .keyword .limit
  · rw [hat]
    rfl
  · change (if (c.current.kind == .keyword .limit) = true then _ else pure o.top : Parser _) c = _
      at hlimit
    rw [if_neg (by simpa using hat)] at hlimit
    cases hlimit
    rcases hfirst with hsemicolon | rfl
    · rw [hsemicolon]
      rfl
    · rw [hkind]
      rfl

theorem yields_opening : Yields opening fun _ => True := by
  refine (yields_expect _ _).then fun _ => (yields_eat _).then fun distinct => ?_
  refine yields_topClause.then fun top => yields_selectList.bind fun pending _ => ?_
  refine (yields_expect _ _).then fun _ => yields_source.bind fun root _ => ?_
  exact yields_pure trivial

theorem yields_middle {scope : Scope} (hd : scope.Distinct) :
    Yields (middle scope) fun m => JoinsRead scope m.joins m.scope := by
  refine (yields_joins hd).bind fun joined hjoined => ?_
  refine (yields_whereClause joined.2).bind fun condition _ => ?_
  refine (yields_groupByClause joined.2).bind fun groupBy _ => ?_
  exact (yields_refuse _ _).then fun _ => yields_pure hjoined

/-- A text that is read, part by part. -/
theorem parse_eq_ok {text : String} {lenient : Bool} {s : Statement}
    (h : parse text lenient = .ok s) :
    ∃ c o c₁ m c₂ orderBy c₃ c₄, Cursor.ofSource text = .ok c ∧
      opening { c with comments := [] } = .ok o c₁ ∧
      middle (Scope.ofSource o.source lenient) c₁ = .ok m c₂ ∧
      orderByClause m.scope o.labels c₂ = .ok orderBy c₃ ∧
      closing c.comments o m orderBy c₃ = .ok s c₄ := by
  rw [parse] at h
  cases hc : Cursor.ofSource text with
  | error e =>
    rw [hc] at h
    cases h
  | ok c =>
    rw [hc] at h
    cases hs : statement lenient c with
    | error e c' =>
      simp only [hs] at h
      cases h
    | ok s' c₄ =>
      simp only [hs] at h
      cases h
      rw [statement_eq] at hs
      obtain ⟨_, c', hrefuse, hbody⟩ := bind_eq_ok.1 hs
      obtain rfl := eq_of_refuse hrefuse
      change statementBody lenient c'.comments { c' with comments := [] } = _ at hbody
      rw [statementBody_eq] at hbody
      obtain ⟨o, c₁, hopening, hbody⟩ := bind_eq_ok.1 hbody
      obtain ⟨m, c₂, hmiddle, hbody⟩ := bind_eq_ok.1 hbody
      obtain ⟨orderBy, c₃, horderBy, hclosing⟩ := bind_eq_ok.1 hbody
      exact ⟨c', o, c₁, m, c₂, orderBy, c₃, c₄, rfl, hopening, hmiddle, horderBy, hclosing⟩

/-- A qualifier that binds a column names an entity of the statement. -/
theorem JoinsRead.names_of_bind {s : Statement} {lenient : Bool} {js : List Join} {scope : Scope}
    {pending : List PendingItem} (hread : JoinsRead (Scope.ofSource s.source lenient) js scope)
    (hbind : SelectList.bind scope pending s.groupBy js = .ok (s.items, s.joins)) {q name : String}
    {column : ColumnRef} {owner : Binding}
    (h : scope.bind ⟨some q, name⟩ = .ok (column, owner)) :
    ∃ owner, s.Names q owner ∧ column = ⟨owner, name⟩ := by
  cases hfind : scope.find? q with
  | none => simp [Scope.bind, Scope.resolve, hfind] at h
  | some found =>
    rw [Scope.bind_some hfind] at h
    cases h
    refine ⟨scope.declared owner, ?_, rfl⟩
    cases owner with
    | root =>
      rw [Scope.find?] at hfind
      split at hfind
      · next hsame =>
        rw [hread.source_eq] at hsame
        exact hsame
      · simp at hfind
    | join i =>
      obtain ⟨p, hp, hlower⟩ := Scope.lower_eq_of_find? hfind
      rw [Scope.declared, hp]
      refine ⟨?_, Text.sameName_iff.2 hlower⟩
      rw [hread.map_qualifier hbind]
      exact List.mem_of_getElem? hp

/-- Up to where no reading has passed the word `ORDER`, there is none. -/
theorem dropWhile_kinds {text : String} {c c' : Cursor}
    (h : (Track.ofText text false).Abreast c c') :
    ((spoken (tokenize text)).map Token.kind).dropWhile (· != .keyword .order) =
      c.kinds.dropWhile (· != .keyword .order) := by
  obtain ⟨n, hleft, -, hpassed⟩ := h
  have hsplit : spoken (tokenize text) = (Track.ofText text false).left.take n ++ c.rest := by
    rw [← hleft, List.take_append_drop]
    rfl
  rw [hsplit, List.map_append, List.dropWhile_append_of_pos, Cursor.kinds]
  intro k hk
  obtain ⟨t, ht, rfl⟩ := List.mem_map.1 hk
  obtain ⟨-, horder⟩ := hpassed t ht
  rw [bne_iff_ne]
  exact fun hkind => absurd (horder hkind) (by simp [Track.ofText])

/-- The sort columns of a statement are those of its text, one by one, and a column that is written
with a qualifier is the column of the entity that the qualifier names. -/
theorem orderBy_of_parse {text : String} {lenient : Bool} {s : Statement}
    (h : parse text lenient = .ok s) :
    List.Forall₂ (fun written item => ∀ q, written.qualifier = some q →
      ∃ owner, s.Names q owner ∧ item.column = ⟨owner, written.name⟩)
      (sortColumns text) s.orderBy := by
  obtain ⟨c, o, c₁, m, c₂, orderBy, c₃, c₄, hc, hopening, hmiddle, horderBy, hclosing⟩ :=
    parse_eq_ok h
  obtain ⟨hdone, hend, hsource, rfl, hbind⟩ := closing_eq_ok hclosing
  have hstart : c.IsNamed := Cursor.isNamed_ofSource hc
  have hnamed := (yields_opening { c with comments := [] } o c₁ hstart hopening).2
  have hread := (yields_middle (by simp [Scope.Distinct, Scope.qualifiers, Scope.ofSource]) _ m c₂
    hnamed hmiddle).1
  rw [← hsource] at hread
  -- the two parts in front of the sort clause are read without passing the word `ORDER`
  have habreast : (Track.ofText text false).Abreast { c with comments := [] }
      { c with comments := [] } := abreast_ofSource hc false
  obtain ⟨ho, habreast₁⟩ := inStep_opening.of_ok habreast hopening
  obtain ⟨-, habreast₂⟩ := (inStep_middle _).of_ok habreast₁ hmiddle
  by_cases hat : c₂.current.kind = .keyword .order
  · obtain ⟨columns, hcolumns, hall⟩ :=
      columnsFrom_orderByClause habreast₂.endsOnce_rest hat horderBy
    have hsort : sortColumns text = columns := by
      have hkinds : c₂.kinds = .keyword .order :: (spoken c₂.ahead).map Token.kind := by
        rw [Cursor.kinds, Cursor.rest, List.map_cons, hat]
      rw [sortColumns, dropWhile_kinds habreast₂, hkinds, List.dropWhile_cons_of_neg (by simp),
        ← hkinds, hcolumns, hdone, List.append_nil]
    rw [hsort]
    refine hall.imp ?_
    rintro ⟨qualifier, name⟩ item hsorts q rfl
    obtain ⟨owner, hcolumn⟩ := hsorts (by simp)
    exact hread.names_of_bind hbind hcolumn
  · -- without a sort clause nothing up to the end of the text is the word `ORDER`
    rw [orderByClause_of_ne hat] at horderBy
    obtain ⟨hnone, rfl⟩ := EStateM.Result.ok.inj horderBy
    obtain ⟨-, habreast₄⟩ := (inStep_closing c.comments c.comments ho m s.orderBy).of_ok habreast₂
      hclosing
    have hlast : c₄.kinds = [.endOfInput] := by
      have hahead : spoken c₄.ahead = [] := List.eq_nil_of_length_eq_zero
        (habreast₄.size_eq_zero_iff.2 hend)
      rw [Cursor.kinds, Cursor.rest, hahead, List.map_cons, hend, List.map_nil]
    have hsort : sortColumns text = [] := by
      rw [sortColumns, dropWhile_kinds habreast₄, hlast]
      rfl
    rw [hsort, ← hnone]
    exact .nil

end Sql

end FetchQuery
