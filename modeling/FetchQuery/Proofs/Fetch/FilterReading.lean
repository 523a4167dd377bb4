import FetchQuery.Fetch.ReadFilter
import FetchQuery.Proofs.Fetch.FilterShape
import FetchQuery.Proofs.Xml.Trees

/-!
# Written filters are read back

A lowered condition is flat, and its single conditions state tests, so it is a filter in normal
form (`Filter.Normal`). The markup of such a filter is read without warnings as a condition that is
lowered to the same filter again (`exists_readFilter_ofCondition`).

The condition that is read need not be the one that was written: negations have moved, a group
is read as a chain to the left, and a text may have become a number. What the two have in
common are their columns and whether a list of values is empty (`columns_of_lower_eq`,
`among_of_lower_eq`).
-/

set_option autoImplicit false

namespace FetchQuery

open Xml.Node

/-- The literal that is chosen for a text keeps the text. -/
theorem Literal.fetchText_ofFetch (text : String) : (Literal.ofFetch text).fetchText = text := by
  rw [Literal.ofFetch]
  split
  · -- a number is chosen only if its text is the given one
    next value h =>
    rw [exactNumber?] at h
    split at h
    · have htext := (Option.filter_eq_some_iff.1 h).2
      simpa [fetchText] using htext
    · simp at h
  · split
    · next h =>
      rw [h]
      rfl
    · split
      · next h =>
        rw [h]
        rfl
      · rfl

theorem Comparison.ofFetch?_fetch (op : Comparison) : ofFetch? op.fetch = some op := by
  cases op <;> rfl

namespace Fetch

namespace Filter

/-! ## Normal forms -/

/-- Filters of the shape that lowering gives them. -/
inductive Normal : Filter → Prop where
  | condition (column : ColumnRef) {test : Test} (negated : Bool) (htest : test ≠ .among []) :
    Normal (lower (.test column test) negated)
  | group {op : Connective} {children : List Filter} (hlength : 2 ≤ children.length)
    (hchildren : ∀ f ∈ children, Normal f) (hflat : ∀ f ∈ children, operands op f = [f]) :
    Normal (.group op children)

/-- A flat filter is normal if its single conditions state tests that can be read back. -/
theorem Flat.normal {f : Filter} (hf : f.Flat)
    (h : ∀ single ∈ f.singles, ∃ l : Leaf, l.test ≠ .among [] ∧ single = Single.ofLeaf l) :
    f.Normal := by
  induction hf with
  | condition column operator values =>
    obtain ⟨l, htest, hl⟩ := h ⟨column, operator, values⟩ (by simp [singles])
    obtain ⟨rfl, rfl, rfl⟩ := Single.mk.inj hl
    exact .condition l.column _ htest
  | @group op children hlength _ hinner ih =>
    refine .group hlength (fun f hf => ih f hf fun single hsingle => h single ?_) fun f hf => ?_
    · -- a group has the single conditions of its members
      obtain ⟨front, behind, rfl⟩ := List.append_of_mem hf
      rw [singles, singlesAll_append, singlesAll]
      exact List.mem_append_right _ (List.mem_append_left _ hsingle)
    · exact operands_eq_self fun nested heq => hinner nested (heq ▸ hf)

/-- Lowering gives normal filters. -/
theorem normal_lower {e : Condition} (he : ∀ t ∈ e.tests, t.2 ≠ .among []) (negated : Bool) :
    (lower e negated).Normal := by
  refine (flat_lower e negated).normal fun single hsingle => ?_
  rw [singles_lower_toNat] at hsingle
  obtain ⟨l, hl, rfl⟩ := List.mem_map.1 hsingle
  refine ⟨l, he (l.column, l.test) ?_, rfl⟩
  rw [← e.map_leaves negated.toNat]
  exact List.mem_map_of_mem hl

/-! ## Single conditions -/

/-- A test is read back from the name of its operator and the texts of its values. -/
theorem readTest_lower (column : ColumnRef) {test : Test} (htest : test ≠ .among [])
    (negated : Bool) :
    ∃ e, readTest (if negated then (operatorOf test).complement else operatorOf test).name column
        (valuesOf test).texts = .ok e ∧
      lower e false = lower (.test column test) negated := by
  -- comparisons and null tests have an opposite test, all others are negated as a whole
  cases test with
  | compare op value =>
    refine ⟨.test column (.compare (if negated then op.negate else op)
      (Literal.ofFetch value.fetchText)), ?_, ?_⟩
    · cases negated <;>
        simp [readTest, operatorOf, FilterOperator.complement, FilterOperator.name,
          Comparison.ofFetch?_fetch, valuesOf, FilterValues.texts, firstValue, Except.map]
    · cases negated <;>
        simp [lower, operatorOf, FilterOperator.complement, valuesOf, Literal.fetchText_ofFetch]
  | null expected =>
    refine ⟨.test column (.null (expected != negated)), ?_, ?_⟩
    · cases negated <;> cases expected <;> rfl
    · cases negated <;> cases expected <;> rfl
  | among values =>
    have hvalues : values ≠ [] := fun h => htest (congrArg Test.among h)
    refine ⟨negatedIf negated (.test column
      (.among (values.map fun value => Literal.ofFetch value.fetchText))), ?_, ?_⟩
    · cases negated <;>
        simp [readTest, operatorOf, FilterOperator.complement, FilterOperator.name,
          Comparison.ofFetch?, readNamedTest, splitNegation, valuesOf, FilterValues.texts,
          listTest, hvalues, Except.map, Function.comp_def]
    · cases negated <;>
        simp [negatedIf, lower, operatorOf, valuesOf, Literal.fetchText_ofFetch]
  | between low high =>
    refine ⟨negatedIf negated (.test column
      (.between (Literal.ofFetch low.fetchText) (Literal.ofFetch high.fetchText))), ?_, ?_⟩
    · cases negated <;>
        simp [readTest, operatorOf, FilterOperator.complement, FilterOperator.name,
          Comparison.ofFetch?, readNamedTest, splitNegation, valuesOf, FilterValues.texts,
          rangeTest, Except.map]
    · cases negated <;>
        simp [negatedIf, lower, operatorOf, valuesOf, Literal.fetchText_ofFetch]
  | like pattern =>
    refine ⟨negatedIf negated (.test column (.like pattern)), ?_, ?_⟩
    · cases negated <;>
        simp [readTest, operatorOf, FilterOperator.complement, FilterOperator.name,
          Comparison.ofFetch?, readNamedTest, splitNegation, valuesOf, FilterValues.texts,
          likeTest, firstValue, Except.map]
    · cases negated <;> rfl

section ConditionElement

variable {column : ColumnRef} {operator : FilterOperator} {x : Xml.Element}
variable {more : List (String × String)}
variable (hx : x.attributes = conditionAttributes column operator ++ more)

include hx

theorem readCondition_eq (hmore : ∀ a ∈ more, a.1 = "value") :
    readCondition none x = readTest operator.name column (conditionValues x) := by
  -- a column of the root is not looked up under the name of another entity
  have hentity : (more.find? fun a => a.1 == "entityname") = none := by
    rw [List.find?_eq_none]
    intro a ha
    simp [hmore a ha]
  obtain ⟨_ | q, name⟩ := column
  · simp [readCondition, Xml.Element.attr?, hx, conditionAttributes, hentity]
  · simp [readCondition, Xml.Element.attr?, hx, conditionAttributes]

theorem conditionValues_eq :
    conditionValues x = ((more.find? fun a => a.1 == "value").map Prod.snd).toList ++
      (x.childrenNamed "value").map Xml.Element.text := by
  obtain ⟨_ | q, name⟩ := column
  · simp [conditionValues, Xml.Element.attr?, hx, conditionAttributes]
  · simp [conditionValues, Xml.Element.attr?, hx, conditionAttributes]

end ConditionElement

/-- The element of a single condition holds its column, its operator and its values. -/
theorem exists_conditionElement (indent depth : Nat) (column : ColumnRef)
    (operator : FilterOperator) (values : FilterValues) :
    ∃ x : Xml.Element, elements indent depth [node (.condition column operator values)] = [x] ∧
      x.name = "condition" ∧
      readCondition none x = readTest operator.name column values.texts := by
  have hnone : conditionAttributes column operator =
      conditionAttributes column operator ++ [] := (List.append_nil _).symm
  cases values with
  | none =>
    refine ⟨_, elements_leaf .., rfl, ?_⟩
    rw [readCondition_eq hnone (by simp), conditionValues_eq hnone]
    rfl
  | single value =>
    refine ⟨_, elements_leaf .., rfl, ?_⟩
    rw [readCondition_eq rfl (by simp), conditionValues_eq rfl]
    rfl
  | list texts =>
    refine ⟨_, elements_branch .., rfl, ?_⟩
    rw [readCondition_eq hnone (by simp), conditionValues_eq hnone]
    have hvalues : (texts.map fun text => (⟨"value", [], [], text⟩ : Xml.Element)).filter
        (fun x => x.name == "value") = texts.map fun text => ⟨"value", [], [], text⟩ := by
      rw [List.filter_eq_self]
      simp
    simp [Xml.Element.childrenNamed, elements_map_text, hvalues, FilterValues.texts,
      Function.comp_def]

/-! ## Groups -/

theorem readOperands_append (owner : Option String) (xs ys : List Xml.Element) :
    readOperands owner (xs ++ ys) =
      ⟨(readOperands owner xs).value ++ (readOperands owner ys).value,
        (readOperands owner xs).warnings ++ (readOperands owner ys).warnings⟩ := by
  induction xs with
  | nil => rfl
  | cons x xs ih => simp [readOperands, ih]

/-- The element of a filter is read as one condition, without warnings, that is lowered to the
filter. -/
def ReadsBack (f : Filter) : Prop :=
  ∀ indent depth, ∃ e, readOperands none (elements indent depth [node f]) = ⟨[e], []⟩ ∧
    lower e false = f

theorem readOperands_nodes {fs : List Filter} (h : ∀ f ∈ fs, f.ReadsBack) (indent depth : Nat) :
    ∃ es, readOperands none (elements indent depth (nodes fs)) = ⟨es, []⟩ ∧
      es.map (lower · false) = fs := by
  induction fs with
  | nil => exact ⟨[], by simp [nodes, elements, readOperands], rfl⟩
  | cons f fs ih =>
    obtain ⟨e, he, hlower⟩ := h f List.mem_cons_self indent depth
    obtain ⟨es, hes, hlowers⟩ := ih fun g hg => h g (List.mem_cons_of_mem f hg)
    refine ⟨e :: es, ?_, by rw [List.map_cons, hlower, hlowers]⟩
    rw [nodes, ← List.singleton_append, elements_append, readOperands_append, he, hes]
    rfl

theorem lower_binary_false (op : Connective) (left right : Condition) :
    lower (.binary op left right) false =
      .group op (operands op (lower left false) ++ operands op (lower right false)) :=
  rfl

/-- A chain of conditions under one connective is lowered to one group of their filters, if
none of these could be merged into it. -/
theorem lower_chain {op : Connective} {first second : Condition} {rest : List Condition}
    (hflat : ∀ e ∈ first :: second :: rest, operands op (lower e false) = [lower e false]) :
    ∃ e, Condition.chain? op (first :: second :: rest) = some e ∧
      lower e false = .group op ((first :: second :: rest).map (lower · false)) := by
  refine ⟨_, rfl, ?_⟩
  -- the chain read so far is a group already, so it takes in its operands one by one
  have hfold : ∀ (es : List Condition) (acc : Condition) (fs : List Filter),
      lower acc false = .group op fs →
      (∀ e ∈ es, operands op (lower e false) = [lower e false]) →
        lower (es.foldl (Condition.binary op) acc) false =
          .group op (fs ++ es.map (lower · false)) := by
    intro es
    induction es with
    | nil =>
      intro acc fs hacc _
      simpa using hacc
    | cons e es ih =>
      intro acc fs hacc hes
      rw [List.foldl_cons, ih _ (fs ++ [lower e false])]
      · simp
      · rw [lower_binary_false, hacc, operands_group_self, hes e List.mem_cons_self]
      · exact fun e' he' => hes e' (List.mem_cons_of_mem e he')
  rw [List.foldl_cons, hfold rest _ [lower first false, lower second false]]
  · simp
  · rw [lower_binary_false, hflat first (by simp), hflat second (by simp)]
    rfl
  · exact fun e he => hflat e (by simp [he])

/-- The connective of a group is read back. -/
theorem readFilter_group (op : Connective) (children : List Xml.Element) (text : String) :
    readFilter none ⟨"filter", [("type", op.fetch)], children, text⟩ =
      joinOperands ⟨op, []⟩ (readOperands none children) := by
  rw [readFilter]
  cases op <;> rfl

theorem exists_readFilter_group {op : Connective} {children : List Filter}
    (hlength : 2 ≤ children.length) (hchildren : ∀ f ∈ children, f.ReadsBack)
    (hflat : ∀ f ∈ children, operands op f = [f]) (indent depth : Nat) (text : String) :
    ∃ e, readFilter none
        ⟨"filter", [("type", op.fetch)], elements indent depth (nodes children), text⟩ =
          ⟨some e, []⟩ ∧
      lower e false = .group op children := by
  obtain ⟨es, hes, rfl⟩ := readOperands_nodes hchildren indent depth
  rw [readFilter_group, hes]
  rw [List.length_map] at hlength
  match es, hlength with
  | first :: second :: rest, _ =>
    obtain ⟨e, hchain, hlower⟩ :=
      lower_chain fun e (he : e ∈ first :: second :: rest) => hflat _ (List.mem_map_of_mem he)
    refine ⟨e, ?_, hlower⟩
    rw [joinOperands, hchain]
    rfl

/-- Every normal filter is read back. -/
theorem Normal.readsBack {f : Filter} (hf : f.Normal) : f.ReadsBack := by
  induction hf with
  | condition column negated htest =>
    intro indent depth
    obtain ⟨x, hx, hname, hread⟩ := exists_conditionElement indent depth column _ _
    obtain ⟨e, he, hlower⟩ := readTest_lower column htest negated
    refine ⟨e, ?_, hlower⟩
    rw [lower, hx]
    simp [readOperands, hname, hread, he, Reading.ofExcept]
  | @group op children hlength hchildren hflat ih =>
    intro indent depth
    obtain ⟨e, he, hlower⟩ := exists_readFilter_group hlength ih hflat indent (depth + 1)
      (blanks indent (depth + 1) (nodes children) ++ lineStart indent depth)
    refine ⟨e, ?_, hlower⟩
    rw [node, elements_branch]
    simp [readOperands, he]

/-- The filter element of a condition is read as a condition with the same filter. -/
theorem exists_readFilter_ofCondition {e : Condition} (he : ∀ t ∈ e.tests, t.2 ≠ .among [])
    (indent depth : Nat) :
    ∃ (x : Xml.Element) (e' : Condition), elements indent depth [(ofCondition e).node] = [x] ∧
      x.name = "filter" ∧ readFilter none x = ⟨some e', []⟩ ∧
      lower e' false = lower e false := by
  have hnormal := normal_lower he false
  have hback := hnormal.readsBack
  rw [ofCondition]
  cases hlower : lower e false with
  | group op children =>
    rw [hlower] at hnormal
    cases hnormal with
    | group hlength hchildren hflat =>
      obtain ⟨e', he', hlower'⟩ := exists_readFilter_group hlength
        (fun f hf => (hchildren f hf).readsBack) hflat indent (depth + 1)
        (blanks indent (depth + 1) (nodes children) ++ lineStart indent depth)
      exact ⟨_, e', elements_branch .., rfl, he', hlower'⟩
  | condition column operator values =>
    -- a single condition is wrapped into a group of its own
    rw [hlower] at hback
    obtain ⟨e', he', hlower'⟩ := hback indent (depth + 1)
    refine ⟨_, e', elements_branch .., rfl, ?_, hlower'⟩
    exact (readFilter_group .and _ _).trans (congrArg (joinOperands ⟨.and, []⟩) he')

/-! ## Tags -/

theorem isTag_condition (column : ColumnRef) (operator : FilterOperator) (value : Option String) :
    Xml.IsTag "condition"
      (conditionAttributes column operator ++ (value.map fun text => ("value", text)).toList) := by
  refine Xml.isTag_of_keys (["entityname"] ++ ["attribute", "operator"] ++ ["value"]) ?_ (by decide)
  rw [conditionAttributes, List.map_append, List.map_append]
  refine (List.Sublist.append ?_ (List.Sublist.refl _)).append ?_
  · cases column.qualifier <;> simp
  · cases value <;> simp

theorem proper_map_text {name : String} (hname : Xml.IsName name) (texts : List String) :
    Proper (texts.map (Xml.Node.text name)) := by
  refine proper_map fun text _ => ?_
  simpa [Proper] using ⟨hname, by simp, by simp⟩

theorem proper_condition (column : ColumnRef) (operator : FilterOperator) (values : FilterValues) :
    Proper [node (.condition column operator values)] := by
  have hnone := isTag_condition column operator none
  rw [Option.map_none, Option.toList_none, List.append_nil] at hnone
  cases values with
  | none => simpa [node, Proper] using hnone
  | single value => simpa [node, Proper] using isTag_condition column operator (some value)
  | list texts => simpa [node, Proper] using ⟨hnone, proper_map_text (by decide) texts⟩

mutual

/-- The markup of a filter has proper tags. -/
theorem proper_node : ∀ f : Filter, Proper [node f]
  | .condition column operator values => proper_condition column operator values
  | .group op children => by
    have htag : Xml.IsTag "filter" [("type", op.fetch)] :=
      Xml.isTag_of_keys ["type"] (List.Sublist.refl _) (by decide)
    simpa [node, Proper] using ⟨htag, proper_nodes children⟩

theorem proper_nodes : ∀ fs : List Filter, Proper (nodes fs)
  | [] => by simp [nodes, Proper]
  | f :: fs => by
    rw [nodes, ← List.singleton_append, proper_append]
    exact ⟨proper_node f, proper_nodes fs⟩

end

/-! ## What a filter keeps of its condition -/

mutual

/-- The columns and the values of the single conditions in a filter. -/
def leaves : Filter → List (ColumnRef × FilterValues)
  | .condition column _ values => [(column, values)]
  | .group _ children => leavesAll children

/-- The columns and the values of the single conditions in a group. -/
def leavesAll : List Filter → List (ColumnRef × FilterValues)
  | [] => []
  | f :: rest => leaves f ++ leavesAll rest

end

mutual

/-- The leaves of a filter are its single conditions without their operators. -/
theorem leaves_eq : ∀ f : Filter, leaves f = f.singles.map fun s => (s.column, s.values)
  | .condition _ _ _ => rfl
  | .group _ children => leavesAll_eq children

theorem leavesAll_eq : ∀ fs : List Filter,
    leavesAll fs = (singlesAll fs).map fun s => (s.column, s.values)
  | [] => rfl
  | f :: rest => by rw [leavesAll, singlesAll, List.map_append, leaves_eq f, leavesAll_eq rest]

end

theorem leaves_lower (e : Condition) (negated : Bool) :
    leaves (lower e negated) = e.tests.map fun t => (t.1, valuesOf t.2) := by
  rw [leaves_eq, singles_lower_toNat, ← e.map_leaves negated.toNat, List.map_map, List.map_map]
  rfl

/-- Conditions with the same filter test the same columns. -/
theorem columns_of_lower_eq {e e' : Condition} (h : lower e' false = lower e false) :
    e'.columns = e.columns := by
  have hleaves := congrArg leaves h
  rw [leaves_lower, leaves_lower] at hleaves
  simpa [Condition.columns, Function.comp_def] using congrArg (List.map Prod.fst) hleaves

/-- Of two conditions with the same filter both have an empty list, or none. -/
theorem among_of_lower_eq {e e' : Condition} (h : lower e' false = lower e false)
    (he : ∀ t ∈ e.tests, t.2 ≠ .among []) : ∀ t ∈ e'.tests, t.2 ≠ .among [] := by
  rintro ⟨column, t⟩ ht rfl
  have hleaf : (column, FilterValues.list []) ∈ leaves (lower e' false) := by
    rw [leaves_lower]
    exact List.mem_map.2 ⟨_, ht, rfl⟩
  rw [h, leaves_lower] at hleaf
  obtain ⟨⟨column', t'⟩, ht', heq⟩ := List.mem_map.1 hleaf
  refine he _ ht' ?_
  cases t' <;> simp_all [valuesOf]

end Filter

end Fetch

end FetchQuery
