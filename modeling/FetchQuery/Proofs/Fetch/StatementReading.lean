import FetchQuery.Proofs.Fetch.CommentBody
import FetchQuery.Proofs.Fetch.ElementReading
import FetchQuery.Proofs.Fetch.Pruning
import FetchQuery.Proofs.Numbers
import FetchQuery.Proofs.Text.Classes
import FetchQuery.Proofs.Text.Lines
import FetchQuery.Proofs.Xml.Documents

/-!
# Reading a written statement

The FetchXML text of a well-bound statement is read as the returned statement, with the comments
of the statement in the form they have in markup (`exists_read_render`), whatever the indentation.
The only warnings are those for joins whose qualifier is the name of the root entity, which
happens when the root has a label.
-/

set_option autoImplicit false

namespace FetchQuery.Fetch

open Xml Xml.Node JoinForest

/-! ## Tags -/

theorem proper_leaf {name : String} {attributes : List (String × String)}
    (h : IsTag name attributes) : Proper [.leaf name attributes] := by
  simpa [Proper] using h

theorem proper_branch {name : String} {attributes : List (String × String)} {children : List Node}
    (h : IsTag name attributes) (hchildren : Proper children) :
    Proper [.branch name attributes children] := by
  simpa [Proper] using ⟨h, hchildren⟩

theorem proper_groupedNode (name label : String) : Proper [groupedNode name label] :=
  proper_leaf (isTag_of_keys ["name", "alias", "groupby"] (List.Sublist.refl _) (by decide))

theorem proper_itemNode (s : Statement) (entity : String) (item : SelectItem) :
    Proper [itemNode s entity item] := by
  obtain ⟨c | call | owner, label⟩ := item
  · change Proper [columnNode s c label]
    unfold columnNode
    split
    · exact proper_groupedNode c.name (label.getD c.name)
    · cases label with
      | none => exact proper_leaf (isTag_of_keys ["name"] (List.Sublist.refl _) (by decide))
      | some l => exact proper_leaf (isTag_of_keys ["name", "alias"] (List.Sublist.refl _) (by decide))
  · refine proper_leaf (isTag_of_keys (["name", "alias", "aggregate"] ++ ["distinct"]) ?_ (by decide))
    rw [List.map_append]
    refine List.Sublist.append (List.Sublist.refl _) ?_
    cases call.distinct <;> simp
  · exact proper_leaf (isTag_of_keys [] (List.Sublist.refl _) (by decide))

theorem proper_attributeNodes (s : Statement) (owner : Option String) (entity : String)
    (items : List SelectItem) : Proper (attributeNodes s owner entity items) := by
  rw [attributeNodes, proper_append]
  exact ⟨proper_map fun item _ => proper_itemNode s entity item,
    proper_map fun c _ => proper_groupedNode c.name c.name⟩

theorem proper_orderNode (s : Statement) (item : OrderItem) : Proper [orderNode s item] := by
  refine proper_leaf (isTag_of_keys
    (["entityname", "attribute", "alias"] ++ ["descending"]) ?_ (by decide))
  rw [List.map_append]
  refine List.Sublist.append ?_ (List.Sublist.refl _)
  obtain (_ | q) | l := SortKey.ofOrder s item
  · exact List.Sublist.cons _ (List.Sublist.cons_cons _ (List.nil_sublist _))
  · exact List.Sublist.cons_cons _ (List.Sublist.cons_cons _ (List.nil_sublist _))
  · exact List.Sublist.cons _ (List.Sublist.cons _ (List.Sublist.refl _))

theorem isTag_linkAttributes (j : Join) : IsTag "link-entity" (linkAttributes j) := by
  refine isTag_of_keys (["name", "from", "to", "link-type"] ++ ["alias"]) ?_ (by decide)
  rw [linkAttributes, List.map_append]
  refine List.Sublist.append (List.Sublist.refl _) ?_
  cases j.label <;> simp

theorem proper_linkNodes (s : Statement) (levels : Nat) (owner : Option String) :
    Proper (linkNodes s levels owner) := by
  induction levels generalizing owner with
  | zero => simp [linkNodes, Proper]
  | succ levels ih =>
    rw [linkNodes]
    apply proper_map
    intro j _
    dsimp only
    split
    · exact proper_leaf (isTag_linkAttributes j)
    · refine proper_branch (isTag_linkAttributes j) (proper_append.2 ⟨?_, ih _⟩)
      exact proper_attributeNodes s (some j.qualifier) j.entity j.items

theorem isTag_fetchAttributes (s : Statement) : IsTag "fetch" (fetchAttributes s) := by
  refine isTag_of_keys (["top"] ++ ["aggregate"] ++ ["distinct"]) ?_ (by decide)
  rw [fetchAttributes, List.map_append, List.map_append]
  refine (List.Sublist.append ?_ ?_).append ?_
  · cases s.top <;> simp
  · cases s.isAggregate <;> simp
  · cases s.distinct <;> simp

theorem proper_entityNode (s : Statement) : Proper [entityNode s] := by
  refine proper_branch (isTag_of_keys ["name"] (List.Sublist.refl _) (by decide)) ?_
  rw [proper_append, proper_append, proper_append]
  refine ⟨⟨⟨?_, ?_⟩, ?_⟩, ?_⟩
  · exact proper_attributeNodes s none s.source.entity s.items
  · exact proper_map fun item _ => proper_orderNode s item
  · rw [filterNodes]
    split
    · exact Filter.proper_node _
    · simp [Proper]
  · exact proper_linkNodes s s.joins.length none

/-! ## Comments -/

/-- The comments that come back: with their hyphens separated, and trimmed. -/
def returnedComments (s : Statement) : List String :=
  s.comments.map fun comment => Text.trim (commentBody comment)

/-- The document of a statement is read as its comments and its elements. -/
theorem parse_render (s : Statement) (indent : Nat) :
    Document.parse (render indent s) = .ok ⟨returnedComments s,
      rootElement indent "fetch" (fetchAttributes s) [entityNode s]⟩ := by
  let bodies := s.comments.map fun comment => " " ++ commentBody comment ++ " "
  have hbodies : ∀ body ∈ bodies, ¬['-', '-'] <:+: body.toList := by
    intro body hbody
    obtain ⟨comment, -, rfl⟩ := List.mem_map.1 hbody
    exact not_infix_commentBody comment
  have hdocument : document s = bodies.map Node.comment ++
      [.branch "fetch" (fetchAttributes s) [entityNode s]] := by
    rw [document, List.map_map]
    rfl
  have hcomments : bodies.map Text.trim = returnedComments s := by
    rw [List.map_map]
    exact List.map_congr_left fun comment _ => Text.trim_padded (commentBody comment)
  rw [render, hdocument,
    parse_renderDocument indent hbodies (isTag_fetchAttributes s) (proper_entityNode s), hcomments]

/-! ## The whole statement -/

theorem trim_rowCountText (n : UInt64) : Text.trim (rowCountText n) = rowCountText n := by
  apply Text.trim_of_not_blank
  intro c hc
  rw [rowCountText, String.toList_ofList] at hc
  have hdigit : c.isDigit = true := Nat.isDigit_of_mem_toDigits (by decide) (by decide) hc
  exact Text.isBlank_of_basic (by simp [Text.isBasic, Char.isAlphanum, hdigit])

/-- The attributes of the fetch element are read back. -/
theorem readTop_fetchAttributes (s : Statement) (children : List Element) (text : String) :
    let e : Element := ⟨"fetch", fetchAttributes s, children, text⟩
    readTop e = ⟨s.top, []⟩ ∧ pageWarning e = [] ∧ e.flag "distinct" = s.distinct := by
  have htrue : Text.sameName "true" "true" = true := by decide
  cases htop : s.top <;> cases haggregate : s.isAggregate <;> cases hdistinct : s.distinct <;>
    simp [readTop, pageWarning, Element.flag, Element.attr?, fetchAttributes, htop, haggregate,
      hdistinct, htrue, trim_rowCountText, rowCount?_rowCountText]

/-- A fetch element that holds nothing but an entity. -/
theorem ofDocument_entity (comments : List String) (attributes : List (String × String))
    (root : String) (children : List Element) (text body : String) :
    let e : Element := ⟨"fetch", attributes, [⟨"entity", [("name", root)], children, body⟩], text⟩
    ofDocument ⟨comments, e⟩ =
      (readBody root ⟨none, root, .inner⟩ children
        ⟨[], [], [], [], (readTop e).warnings ++ pageWarning e⟩).map fun (items, d) =>
          finish comments (e.flag "distinct") (readTop e).value root items d := by
  intro e
  have hentity : Element.attr? ⟨"entity", [("name", root)], children, body⟩ "name" = some root :=
    rfl
  have hsiblings : siblingWarnings e = [] := by simp [siblingWarnings, Element.childrenNamed, e]
  simp only [ofDocument, Element.childrenNamed, e, ne_eq, not_true_eq_false, if_false, hsiblings,
    List.filter_cons, BEq.rfl, if_true, hentity, List.append_nil]

theorem retainOrders_eq {known : Known} {orders : List OrderItem}
    (h : ∀ item ∈ orders, known.column? item.column = some item.column) :
    retainOrders known orders = ⟨orders, []⟩ := by
  induction orders with
  | nil => rfl
  | cons item orders ih =>
    simp [retainOrders, h item List.mem_cons_self, ih fun o ho => h o (List.mem_cons_of_mem item ho)]

section Statement

variable {s : Statement} (hs : s.WellBound)

include hs

/-- The columns of a statement name entities that the returned statement knows. -/
theorem column?_of_refers (condition : Option Condition) {c : ColumnRef} (hc : s.Refers c) :
    Known.column? ⟨s.source.entity, (returned s condition).joins.map Join.qualifier⟩ c =
      some c := by
  rw [Known.column?]
  rcases refers_returned hs condition hc with hc | ⟨j, hj, hc⟩
  · rw [hc]
  · have hmem : ((returned s condition).joins.map Join.qualifier).contains j.qualifier = true :=
      List.contains_iff_mem.2 (List.mem_map_of_mem hj)
    rw [hc]
    exact if_pos hmem

theorem strayWarnings_returned (condition : Option Condition) :
    strayWarnings (returned s condition) = [] := by
  rw [strayWarnings]
  split
  · next hany =>
    have haggregate : s.isAggregate = true := by
      rw [← isAggregate_returned hs condition, Statement.isAggregate, hany, Bool.or_true]
    rw [List.filterMap_eq_nil_iff]
    intro item hitem
    obtain ⟨hwildcard, hcolumn⟩ := grouped_returned hs condition haggregate hitem
    cases hvalue : item.value with
    | aggregate call => rfl
    | column c => simp [mem_groupBy_returned hs, hcolumn c hvalue]
    | wildcard owner => exact absurd hvalue (hwildcard owner)
  · rfl

/-- The elements below the root entity give the parts of the returned statement. -/
theorem exists_takes_entity (indent depth : Nat) :
    ∃ condition : Option Condition,
      Takes s.source.entity ⟨none, s.source.entity, .inner⟩
        (elements indent depth (attributeNodes s none s.source.entity s.items ++
          s.orderBy.map (orderNode s) ++ filterNodes s ++ linkNodes s s.joins.length none))
        ⟨[], [], [], [], []⟩ (returned s condition).items
        ⟨(returned s condition).joins, (returned s condition).groupBy,
          (returned s condition).orderBy, condition.toList,
          rootWarnings s.source.entity (nestedJoins s)⟩ ∧
      condition.map (Filter.lower · false) = s.condition.map (Filter.lower · false) := by
  let owner : Owner := ⟨none, s.source.entity, .inner⟩
  let items := returnedItems s none s.source.entity s.items
  let start : Draft := ⟨[], [], [], [], []⟩
  have hitems : Takes s.source.entity owner
      (elements indent depth (attributeNodes s none s.source.entity s.items)) start items
      (start.groupAll (groupedColumns s items)) := by
    apply takes_attributeNodes indent depth hs.root_items
    intro haggregate item hitem
    exact (hs.grouped haggregate item (List.mem_append_left _ hitem)).2
  let grouped := start.groupAll (groupedColumns s items)
  let ordered : Draft := { grouped with orderBy := (returned s none).orderBy }
  have horders : Takes s.source.entity owner
      (elements indent depth (s.orderBy.map (orderNode s))) grouped [] ordered :=
    takes_orderNodes s indent depth s.orderBy rfl grouped
  obtain ⟨condition, hfilter, hlower⟩ : ∃ condition : Option Condition,
      Takes s.source.entity owner (elements indent depth (filterNodes s)) ordered []
          { ordered with conditions := condition.toList } ∧
        condition.map (Filter.lower · false) = s.condition.map (Filter.lower · false) :=
    takes_filterNodes hs.among_ne_nil indent depth rfl ordered
  have hlinks := takes_linkNodes hs indent s.joins.length owner depth
    (d := { ordered with conditions := condition.toList }) (nodup_qualifier_preorder hs.isForest)
  have hgroupBy : (returned s condition).groupBy = insertColumns grouped.groupBy
      (groupedColumns s ((nestedJoins s).flatMap fun j => (returnedJoin s j).items)) := by
    change insertColumns [] (groupedColumns s (items ++ _)) = _
    rw [groupedColumns_append, insertColumns_append, List.flatMap_map]
    rfl
  refine ⟨condition, ?_, hlower⟩
  have hbody := ((hitems.append horders).append hfilter).append hlinks
  rw [← elements_append, ← elements_append, ← elements_append, List.append_nil, List.append_nil,
    List.append_nil] at hbody
  rw [hgroupBy]
  exact hbody

/-- A draft with the parts of the returned statement is finished as that statement. -/
theorem finish_returned {condition : Option Condition}
    (hlower : condition.map (Filter.lower · false) = s.condition.map (Filter.lower · false))
    (comments : List String) (warnings : List Warning) :
    finish comments s.distinct s.top s.source.entity (returned s condition).items
        ⟨(returned s condition).joins, (returned s condition).groupBy,
          (returned s condition).orderBy, condition.toList, warnings⟩ =
      ⟨{ returned s condition with comments }, warnings⟩ := by
  have horders : retainOrders
      ⟨s.source.entity, (returned s condition).joins.map Join.qualifier⟩
      (returned s condition).orderBy = ⟨(returned s condition).orderBy, []⟩ := by
    apply retainOrders_eq
    intro item hitem
    obtain ⟨written, hwritten, rfl⟩ := List.mem_map.1 hitem
    exact column?_of_refers hs condition (refers_asColumn hs.toResolved hwritten)
  have hstray := strayWarnings_returned hs condition
  cases condition with
  | none =>
    simp only [finish, Option.toList, Condition.chain?, horders, List.append_nil]
    exact congrArg (Reading.mk _) ((congrArg (warnings ++ ·) hstray).trans (List.append_nil _))
  | some e' =>
    have hcondition : retainKnown
        ⟨s.source.entity, (returned s (some e')).joins.map Join.qualifier⟩ e' = ⟨some e', []⟩ := by
      refine retainKnown_eq fun c hc => column?_of_refers hs (some e') ?_
      obtain ⟨e, he, hsame⟩ := Option.map_eq_some_iff.1 hlower.symm
      rw [Filter.columns_of_lower_eq hsame.symm] at hc
      exact hs.condition_columns e he c hc
    simp only [finish, Option.toList, Condition.chain?, List.foldl_nil, hcondition, horders,
      List.append_nil]
    exact congrArg (Reading.mk _) ((congrArg (warnings ++ ·) hstray).trans (List.append_nil _))

/-- The text of a statement is read as the returned statement, with its comments. There are
warnings only for joins whose qualifier is the name of the root entity. -/
theorem exists_read_render (indent : Nat) :
    ∃ condition : Option Condition,
      read (render indent s) =
          .ok ⟨{ returned s condition with comments := returnedComments s },
            rootWarnings s.source.entity (nestedJoins s)⟩ ∧
        condition.map (Filter.lower · false) = s.condition.map (Filter.lower · false) := by
  obtain ⟨condition, htakes, hlower⟩ := exists_takes_entity hs indent 2
  refine ⟨condition, ?_, hlower⟩
  have hparse := parse_render s indent
  obtain ⟨htop, hpage, hdistinct⟩ := readTop_fetchAttributes s
    (elements indent 1 [entityNode s]) (blanks indent 1 [entityNode s] ++ lineStart indent 0)
  rw [rootElement, entityNode, elements_branch] at hparse
  rw [entityNode, elements_branch] at htop hpage hdistinct
  rw [read, hparse]
  change ofDocument _ = _
  rw [ofDocument_entity, htop, hpage, hdistinct]
  exact (congrArg (Except.map _) htakes).trans
    (congrArg Except.ok (finish_returned hs hlower (returnedComments s) _))

end Statement

end FetchQuery.Fetch
