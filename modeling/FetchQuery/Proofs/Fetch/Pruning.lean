import FetchQuery.Fetch.Read

/-!
# Conditions on known entities

A test is on an unknown entity if its qualifier is neither that of a join, in exact spelling, nor
the name of the root, letter case aside (`Known.unknown?`). Such tests are dropped, and the rest
of the condition closes around them: a connective that loses one side gives way to the other, and
a negation goes with what it negates. `Pruned` says this by one rule for each kind of node,
`Drops` when nothing is left, and exactly one of the two holds (`pruned_or_drops`,
`Pruned.not_drops`).

What is retained of a condition is the pruned condition, with one warning for every dropped test
(`retainKnown_prunes`).
-/

set_option autoImplicit false

namespace FetchQuery.Fetch

/-! ## Columns -/

/-- The qualifier of a column on an unknown entity. -/
def Known.unknown? (known : Known) (c : ColumnRef) : Option String :=
  c.qualifier.filter fun q => !(known.joined.contains q || Text.sameName q known.root)

/-- A column with its qualifier, if that is the qualifier of a join. -/
def Known.settle (known : Known) (c : ColumnRef) : ColumnRef :=
  ⟨c.qualifier.filter known.joined.contains, c.name⟩

section Columns

variable {known : Known} {c : ColumnRef}

theorem Known.column?_eq (known : Known) (c : ColumnRef) :
    known.column? c = if (known.unknown? c).isSome then none else some (known.settle c) := by
  obtain ⟨q, name⟩ := c
  cases q with
  | none => rfl
  | some q =>
    by_cases hjoined : q ∈ known.joined
    · simp [column?, unknown?, settle, hjoined, Option.filter]
    · cases hroot : Text.sameName q known.root <;>
        simp [column?, unknown?, settle, hjoined, hroot, Option.filter]

theorem Known.column?_of_known (h : known.unknown? c = none) :
    known.column? c = some (known.settle c) := by
  simp [column?_eq, h]

theorem Known.column?_of_unknown {q : String} (h : known.unknown? c = some q) :
    known.column? c = none := by
  simp [column?_eq, h]

/-- A column without a qualifier, or with that of a join, is known and stays as it is. -/
theorem Known.column?_self (h : ∀ q, c.qualifier = some q → q ∈ known.joined) :
    known.column? c = some c := by
  obtain ⟨q, name⟩ := c
  cases q with
  | none => rfl
  | some q => simp [column?, h q rfl]

theorem unknownWarning_of_unknown {q : String} (h : known.unknown? c = some q)
    (referrer : Referrer) : unknownWarning referrer c = [.unknownEntity referrer c.name q] := by
  have hq : c.qualifier = some q := (Option.filter_eq_some_iff.1 h).1
  simp [unknownWarning, hq]

end Columns

/-! ## Pruned conditions -/

/-- All tests of a condition are on unknown entities. -/
def Known.Drops (known : Known) (e : Condition) : Prop :=
  ∀ leaf ∈ e.tests, (known.unknown? leaf.1).isSome

/-- What is left of a condition without the tests on unknown entities. -/
inductive Pruned (known : Known) : Condition → Condition → Prop where
  | test {c : ColumnRef} {t : Test} (hc : known.unknown? c = none) :
      Pruned known (.test c t) (.test (known.settle c) t)
  | not {e e' : Condition} (h : Pruned known e e') : Pruned known (.not e) (.not e')
  | both {op : Connective} {left left' right right' : Condition}
      (hleft : Pruned known left left') (hright : Pruned known right right') :
      Pruned known (.binary op left right) (.binary op left' right')
  | left {op : Connective} {left left' right : Condition} (hleft : Pruned known left left')
      (hright : known.Drops right) : Pruned known (.binary op left right) left'
  | right {op : Connective} {left right right' : Condition} (hleft : known.Drops left)
      (hright : Pruned known right right') : Pruned known (.binary op left right) right'

/-- The tests of a condition that are on known entities, with their columns settled. -/
def Known.keptTests (known : Known) (e : Condition) : List (ColumnRef × Test) :=
  (e.tests.filter fun leaf => (known.unknown? leaf.1).isNone).map fun leaf =>
    (known.settle leaf.1, leaf.2)

section Pruning

variable {known : Known} {e e' left right : Condition} {op : Connective}

theorem drops_binary_iff :
    known.Drops (.binary op left right) ↔ known.Drops left ∧ known.Drops right := by
  simp only [Known.Drops, Condition.tests, List.mem_append, or_imp, forall_and]

theorem keptTests_binary :
    known.keptTests (.binary op left right) = known.keptTests left ++ known.keptTests right := by
  simp [Known.keptTests, Condition.tests]

theorem keptTests_eq_nil_iff : known.keptTests e = [] ↔ known.Drops e := by
  simp [Known.keptTests, Known.Drops, List.filter_eq_nil_iff, Option.isSome_iff_ne_none]

/-- The tests of a pruned condition are those on known entities, in their order. -/
theorem Pruned.tests_eq (h : Pruned known e e') : e'.tests = known.keptTests e := by
  induction h with
  | test hc => simp [Condition.tests, Known.keptTests, hc]
  | not _ ih => exact ih
  | both _ _ ihleft ihright => rw [keptTests_binary, Condition.tests, ihleft, ihright]
  | left _ hright ihleft =>
    rw [keptTests_binary, keptTests_eq_nil_iff.2 hright, List.append_nil, ihleft]
  | right hleft _ ihright =>
    rw [keptTests_binary, keptTests_eq_nil_iff.2 hleft, List.nil_append, ihright]

theorem tests_ne_nil (e : Condition) : e.tests ≠ [] := by
  induction e with
  | test column t => exact List.cons_ne_nil _ _
  | not inner ih => exact ih
  | binary op left right ihleft _ => exact fun h => ihleft (List.append_eq_nil_iff.1 h).1

/-- Something is left only of a condition that is not dropped. -/
theorem Pruned.not_drops (h : Pruned known e e') : ¬known.Drops e := by
  intro hdrops
  refine tests_ne_nil e' ?_
  rw [h.tests_eq, keptTests_eq_nil_iff.2 hdrops]

/-- Retaining prunes a condition, or drops it. -/
theorem pruned_or_drops (known : Known) (e : Condition) :
    (∃ e', (retainKnown known e).value = some e' ∧ Pruned known e e') ∨
      (retainKnown known e).value = none ∧ known.Drops e := by
  induction e with
  | test column t =>
    cases hunknown : known.unknown? column with
    | none =>
      rw [retainKnown, Known.column?_of_known hunknown]
      exact .inl ⟨_, rfl, .test hunknown⟩
    | some q =>
      rw [retainKnown, Known.column?_of_unknown hunknown]
      exact .inr ⟨rfl, by simp [Known.Drops, Condition.tests, hunknown]⟩
  | not inner ih =>
    rw [retainKnown]
    rcases ih with ⟨inner', hvalue, hpruned⟩ | ⟨hvalue, hdrops⟩
    · exact .inl ⟨.not inner', by simp [hvalue], .not hpruned⟩
    · exact .inr ⟨by simp [hvalue], hdrops⟩
  | binary op left right ihleft ihright =>
    -- one case for each pair of sides that may be left
    rw [retainKnown]
    rcases ihleft with ⟨left', hvalue, hpruned⟩ | ⟨hvalue, hdrops⟩
    · rcases ihright with ⟨right', hvalue', hpruned'⟩ | ⟨hvalue', hdrops'⟩
      · exact .inl ⟨.binary op left' right', by simp [hvalue, hvalue'], .both hpruned hpruned'⟩
      · exact .inl ⟨left', by simp [hvalue, hvalue'], .left hpruned hdrops'⟩
    · rcases ihright with ⟨right', hvalue', hpruned'⟩ | ⟨hvalue', hdrops'⟩
      · exact .inl ⟨right', by simp [hvalue, hvalue'], .right hdrops hpruned'⟩
      · exact .inr ⟨by simp [hvalue, hvalue'], drops_binary_iff.2 ⟨hdrops, hdrops'⟩⟩

/-- A condition is pruned in one way only. -/
theorem Pruned.unique {e₁ e₂ : Condition} (h₁ : Pruned known e e₁) (h₂ : Pruned known e e₂) :
    e₁ = e₂ := by
  induction h₁ generalizing e₂ with
  | test hc =>
    cases h₂ with
    | test hc' => rfl
  | not h ih =>
    cases h₂ with
    | not h' => rw [ih h']
  | both hleft hright ihleft ihright =>
    cases h₂ with
    | both hleft' hright' => rw [ihleft hleft', ihright hright']
    | left hleft' hright' => exact absurd hright' hright.not_drops
    | right hleft' hright' => exact absurd hleft' hleft.not_drops
  | left hleft hright ih =>
    cases h₂ with
    | both hleft' hright' => exact absurd hright hright'.not_drops
    | left hleft' hright' => exact ih hleft'
    | right hleft' hright' => exact absurd hleft' hleft.not_drops
  | right hleft hright ih =>
    cases h₂ with
    | both hleft' hright' => exact absurd hleft hleft'.not_drops
    | left hleft' hright' => exact absurd hleft hleft'.not_drops
    | right hleft' hright' => exact ih hright'

theorem retainKnown_eq_some_iff :
    (retainKnown known e).value = some e' ↔ Pruned known e e' := by
  rcases pruned_or_drops known e with ⟨kept, hvalue, hpruned⟩ | ⟨hvalue, hdrops⟩
  · rw [hvalue, Option.some.injEq]
    exact ⟨fun heq => heq ▸ hpruned, hpruned.unique⟩
  · rw [hvalue]
    exact iff_of_false (by simp) fun h => h.not_drops hdrops

theorem retainKnown_eq_none_iff : (retainKnown known e).value = none ↔ known.Drops e := by
  rcases pruned_or_drops known e with ⟨kept, hvalue, hpruned⟩ | ⟨hvalue, hdrops⟩
  · exact iff_of_false (by simp [hvalue]) hpruned.not_drops
  · exact iff_of_true hvalue hdrops

/-- Every dropped test is warned of, from left to right. -/
theorem warnings_retainKnown (known : Known) (e : Condition) :
    (retainKnown known e).warnings = e.tests.filterMap fun leaf =>
      (known.unknown? leaf.1).map (Warning.unknownEntity .condition leaf.1.name) := by
  induction e with
  | test column t =>
    cases hunknown : known.unknown? column with
    | none =>
      rw [retainKnown, Known.column?_of_known hunknown]
      simp [Condition.tests, hunknown]
    | some q =>
      rw [retainKnown, Known.column?_of_unknown hunknown]
      simp [Condition.tests, hunknown, unknownWarning_of_unknown hunknown]
  | not inner ih => exact ih
  | binary op left right ihleft ihright =>
    rw [retainKnown, Condition.tests, List.filterMap_append, ← ihleft, ← ihright]

/-- A condition whose columns are settled already is retained as it is. -/
theorem retainKnown_eq (h : ∀ c ∈ e.columns, known.column? c = some c) :
    retainKnown known e = ⟨some e, []⟩ := by
  induction e with
  | test column t => simp [retainKnown, h column (by simp [Condition.columns, Condition.tests])]
  | not inner ih => simp [retainKnown, ih h]
  | binary op left right ihl ihr =>
    have hl := ihl fun c hc => h c (by simp_all [Condition.columns, Condition.tests])
    have hr := ihr fun c hc => h c (by simp_all [Condition.columns, Condition.tests])
    simp [retainKnown, hl, hr]

end Pruning

/-! ## Finished statements -/

/-- What is known of the entities once all links are read. -/
def Draft.known (d : Draft) (root : String) : Known :=
  ⟨root, d.joins.map Join.qualifier⟩

/-- The conditions of a draft change the condition of the statement and nothing else of it. Their
warnings follow those of the draft. -/
theorem finish_of_conditions (comments : List String) (distinct : Bool) (top : Option UInt64)
    (root : String) (items : List SelectItem) (d : Draft) {e : Condition}
    (h : Condition.chain? .and d.conditions = some e) :
    let done := finish comments distinct top root items d
    let kept := retainKnown (d.known root) e
    ∃ later, done.value.condition = kept.value ∧
      done.warnings = d.warnings ++ kept.warnings ++ later ∧
      finish comments distinct top root items { d with conditions := [] } =
        ⟨{ done.value with condition := none }, d.warnings ++ later⟩ := by
  refine ⟨(retainOrders (d.known root) d.orderBy).warnings ++
    strayWarnings (finish comments distinct top root items d).value, ?_, ?_, ?_⟩
  · simp [finish, Draft.known, h]
  · simp [finish, Draft.known, h]
  · -- which items are stray does not depend on the condition
    simp [finish, Draft.known, Condition.chain?, strayWarnings, Statement.allItems]

/-- What is retained of a condition is the pruned condition: exactly the tests on known entities
are left, in their order. There is none exactly if all tests are on unknown entities. Every
dropped test has its warning, a condition on settled columns stays as it is, and for the finished
statement nothing but the condition depends on this. -/
theorem retainKnown_prunes (known : Known) (e : Condition) :
    (∀ e', (retainKnown known e).value = some e' ↔ Pruned known e e') ∧
      ((retainKnown known e).value = none ↔ known.Drops e) ∧
      (∀ e', (retainKnown known e).value = some e' → e'.tests = known.keptTests e) ∧
      ((retainKnown known e).warnings = e.tests.filterMap fun leaf =>
        (known.unknown? leaf.1).map (Warning.unknownEntity .condition leaf.1.name)) ∧
      ((∀ c ∈ e.columns, ∀ q, c.qualifier = some q → q ∈ known.joined) →
        retainKnown known e = ⟨some e, []⟩) ∧
      ∀ comments distinct top root items d,
        d.known root = known → Condition.chain? .and d.conditions = some e →
          let done := finish comments distinct top root items d
          ∃ later, done.value.condition = (retainKnown known e).value ∧
            done.warnings = d.warnings ++ (retainKnown known e).warnings ++ later ∧
            finish comments distinct top root items { d with conditions := [] } =
              ⟨{ done.value with condition := none }, d.warnings ++ later⟩ := by
  refine ⟨fun e' => retainKnown_eq_some_iff, retainKnown_eq_none_iff, ?_,
    warnings_retainKnown known e, ?_, ?_⟩
  · exact fun e' hvalue => (retainKnown_eq_some_iff.1 hvalue).tests_eq
  · exact fun hcolumns => retainKnown_eq fun c hc => Known.column?_self (hcolumns c hc)
  · rintro comments distinct top root items d rfl hchain
    exact finish_of_conditions comments distinct top root items d hchain

/-- Tests on a root, on an entity that no link brings in, and on a join in another spelling. -/
def mixedTests : Condition :=
  .binary .and
    (.binary .or (.test ⟨some "desk", "age"⟩ (.null true))
      (.not (.test ⟨some "BOOK", "isbn"⟩ (.like "x"))))
    (.test ⟨some "Pen", "ink"⟩ (.null false))

/-- A draft with a join of the qualifier `pen` and these tests. -/
def mixedDraft : Draft :=
  { joins := [⟨"pen", none, .inner, none, "penid", "id", []⟩], conditions := [mixedTests],
    orderBy := [], groupBy := [], warnings := [] }

theorem retainKnown_prunes_mixedTests :
    Pruned (mixedDraft.known "book") mixedTests (.not (.test ⟨none, "isbn"⟩ (.like "x"))) ∧
      (retainKnown (mixedDraft.known "book") mixedTests).warnings =
        [.unknownEntity .condition "age" "desk", .unknownEntity .condition "ink" "Pen"] ∧
      (finish [] false none "book" [] mixedDraft).value.condition =
        some (.not (.test ⟨none, "isbn"⟩ (.like "x"))) ∧
      retainKnown (mixedDraft.known "book") (.test ⟨some "pen", "ink"⟩ (.null true)) =
        ⟨some (.test ⟨some "pen", "ink"⟩ (.null true)), []⟩ := by
  have hvalue : (retainKnown (mixedDraft.known "book") mixedTests).value =
      some (.not (.test ⟨none, "isbn"⟩ (.like "x"))) := by decide +kernel
  obtain ⟨hpruned, -, -, hwarnings, -, hfinish⟩ :=
    retainKnown_prunes (mixedDraft.known "book") mixedTests
  obtain ⟨-, -, -, -, hsettled, -⟩ :=
    retainKnown_prunes (mixedDraft.known "book") (.test ⟨some "pen", "ink"⟩ (.null true))
  obtain ⟨later, hcondition, -, -⟩ := hfinish [] false none "book" [] mixedDraft rfl rfl
  refine ⟨(hpruned _).1 hvalue, hwarnings.trans (by decide +kernel), hcondition.trans hvalue, ?_⟩
  exact hsettled (by decide)

end FetchQuery.Fetch
