import FetchQuery.Proofs.Sql.Accepted
import FetchQuery.Proofs.Sql.InStepClauses

/-!
# Layout does not matter

The select list is bound after everything else has been read, from items that carry the positions
of their first tokens. Binding looks at the items and reports at their positions, so lists that
were read in step have the same outcome (`agree_bind`), and with that whole statements are read in
step (`inStep_statement`).

What is left between a text and its tokens is what a reader skips: blanks, line breaks, comments
and the spelling of reserved words. `parse_of_sameTokens` says that nothing of it matters to the
outcome but for the comments in front of the statement, which become its comments.
-/

set_option autoImplicit false

namespace FetchQuery.Sql

open Track

variable {T : Track} {d : Nat} {K : TokenKind → Prop}

/-! ## Binding a select list -/

/-- Bound items that were read in step. -/
structure Track.SameBound (T : Track) (b b' : BoundItem) : Prop where
  owned_eq : b.owned = b'.owned
  positions : T.At b.position b'.position

/-- Outcomes of two readings that have ended: both have results, or both have one fault at
corresponding tokens. -/
inductive Track.Agree (T : Track) {α β : Type} (R : α → β → Prop) :
    Except SyntaxError α → Except SyntaxError β → Prop
  | ok {a : α} {b : β} (hab : R a b) : Agree T R (.ok a) (.ok b)
  | error {e e' : SyntaxError} (herror : T.SameError e e') : Agree T R (.error e) (.error e')

section Bound

open SelectList

variable {bound bound' : List BoundItem}

theorem agree_bindItems (scope : Scope) {pending pending' : List PendingItem}
    (h : List.Forall₂ T.SamePending pending pending') :
    T.Agree (List.Forall₂ T.SameBound) (bindItems scope pending) (bindItems scope pending') := by
  induction h with
  | nil => exact .ok .nil
  | @cons p p' pending pending' hp _ ih =>
    rw [bindItems, bindItems, ← hp.item_eq]
    cases bindValue scope p.item.value with
    | error fault => exact .error ⟨rfl, hp.positions⟩
    | ok resolved =>
      generalize bindItems scope pending = rest at ih
      generalize bindItems scope pending' = rest' at ih
      cases ih with
      | ok hrest => exact .ok (.cons ⟨rfl, hp.positions⟩ hrest)
      | error herror => exact .error herror

theorem map_owned_eq (h : List.Forall₂ T.SameBound bound bound') :
    bound.map BoundItem.owned = bound'.map BoundItem.owned := by
  induction h with
  | nil => rfl
  | cons hb _ ih => rw [List.map_cons, List.map_cons, hb.owned_eq, ih]

section Owned

variable (h : bound.map BoundItem.owned = bound'.map BoundItem.owned)

include h

/-- Checks that ask for an item ask nothing about its position. -/
theorem any_item_congr (test : SelectItem → Bool) :
    (bound.any fun b => test b.item) = bound'.any fun b => test b.item := by
  have hany := congrArg (List.any · fun p => test p.1) h
  rwa [List.any_map, List.any_map] at hany

theorem aggregates_congr (groupBy : List ColumnRef) :
    aggregates bound groupBy = aggregates bound' groupBy := by
  rw [aggregates, aggregates, any_item_congr h]

theorem unselectedNames_congr (groupBy : List ColumnRef) :
    unselectedNames bound groupBy = unselectedNames bound' groupBy := by
  have hselects : ∀ g : ColumnRef, (bound.any fun b => b.item.selects g) =
      bound'.any fun b => b.item.selects g := fun g => any_item_congr h (SelectItem.selects · g)
  simp only [unselectedNames, hselects]

theorem distribute_congr (joins : List Join) :
    distribute bound joins = distribute bound' joins := by
  simp only [distribute, itemsOf_eq, h]

end Owned

theorem rel_groupingFault? (groupBy : List ColumnRef) {b b' : BoundItem} (h : T.SameBound b b') :
    Option.Rel T.SameError (groupingFault? groupBy b) (groupingFault? groupBy b') := by
  have hitem : b.item = b'.item := congrArg Prod.fst h.owned_eq
  rw [groupingFault?, groupingFault?, ← hitem]
  cases b.item.value with
  | aggregate call => exact .none
  | wildcard owner => exact .some ⟨rfl, h.positions⟩
  | column c =>
    change Option.Rel _ (if groupBy.contains c then _ else _) (if groupBy.contains c then _ else _)
    split
    · exact .none
    · exact .some ⟨rfl, h.positions⟩

theorem rel_findSome? {f : BoundItem → Option SyntaxError}
    (hf : ∀ b b', T.SameBound b b' → Option.Rel T.SameError (f b) (f b'))
    (h : List.Forall₂ T.SameBound bound bound') :
    Option.Rel T.SameError (bound.findSome? f) (bound'.findSome? f) := by
  induction h with
  | nil => exact .none
  | @cons b b' bound bound' hb _ ih =>
    rw [List.findSome?_cons, List.findSome?_cons]
    have hfirst := hf b b' hb
    generalize f b = first at hfirst
    generalize f b' = first' at hfirst
    cases hfirst with
    | some herror => exact .some herror
    | none => exact ih

theorem rel_firstGroupingFault? (groupBy : List ColumnRef)
    (h : List.Forall₂ T.SameBound bound bound') :
    Option.Rel T.SameError (firstGroupingFault? bound groupBy)
      (firstGroupingFault? bound' groupBy) := by
  rw [firstGroupingFault?, firstGroupingFault?, aggregates_congr (map_owned_eq h)]
  split
  · exact rel_findSome? (fun _ _ => rel_groupingFault? groupBy) h
  · exact .none

theorem rel_firstRepeatedLabel? (label? : BoundItem → Option String)
    (hlabel : ∀ b b', b.owned = b'.owned → label? b = label? b')
    (h : List.Forall₂ T.SameBound bound bound') (seen : List String) :
    Option.Rel T.SameError (firstRepeatedLabel? label? seen bound)
      (firstRepeatedLabel? label? seen bound') := by
  induction h generalizing seen with
  | nil => exact .none
  | @cons b b' bound bound' hb _ ih =>
    rw [firstRepeatedLabel?, firstRepeatedLabel?, hlabel b b' hb.owned_eq]
    cases label? b' with
    | none => exact ih seen
    | some label =>
      change Option.Rel _ (if seen.contains (Text.lower label) then _ else _)
        (if seen.contains (Text.lower label) then _ else _)
      split
      · exact .some ⟨rfl, hb.positions⟩
      · exact ih _

/-- Binding has the same outcome for items that were read in step. -/
theorem agree_bind (scope : Scope) {pending pending' : List PendingItem}
    (h : List.Forall₂ T.SamePending pending pending') (groupBy : List ColumnRef)
    (joins : List Join) :
    T.Agree Eq (SelectList.bind scope pending groupBy joins)
      (SelectList.bind scope pending' groupBy joins) := by
  rw [SelectList.bind, SelectList.bind]
  have hitems := agree_bindItems scope h
  generalize bindItems scope pending = items at hitems
  generalize bindItems scope pending' = items' at hitems
  cases hitems with
  | error herror => exact .error herror
  | @ok bound bound' hbound =>
    -- the checks ask for the items only, so they are decided alike, and one after the other
    have howned := map_owned_eq hbound
    have hgrouping := rel_firstGroupingFault? groupBy hbound
    have hlabels := rel_firstRepeatedLabel?
      (resultLabel? (entityOf scope joins) (aggregates bound groupBy)) ?_ hbound
      ((unselectedNames bound groupBy).map Text.lower)
    · simp only [← aggregates_congr howned, ← unselectedNames_congr howned,
        ← distribute_congr howned]
      generalize firstGroupingFault? bound groupBy = fault at hgrouping
      generalize firstGroupingFault? bound' groupBy = fault' at hgrouping
      cases hgrouping with
      | some herror => exact .error herror
      | none =>
        generalize firstRepeatedLabel? _ _ bound = fault at hlabels
        generalize firstRepeatedLabel? _ _ bound' = fault' at hlabels
        cases hlabels with
        | some herror => exact .error herror
        | none => exact .ok rfl
    · intro b b' hb
      obtain ⟨hitem, howner⟩ := Prod.mk.inj hb
      rw [resultLabel?_eq, resultLabel?_eq, hitem, howner]

theorem inStep_bindSelectList (scope : Scope) {pending pending' : List PendingItem}
    (h : List.Forall₂ T.SamePending pending pending') (groupBy : List ColumnRef)
    (joins : List Join) :
    T.InStep d K (bindSelectList scope pending groupBy joins)
      (bindSelectList scope pending' groupBy joins) Eq := by
  rw [bindSelectList, bindSelectList]
  have hbind := agree_bind scope h groupBy joins
  generalize SelectList.bind scope pending groupBy joins = outcome at hbind
  generalize SelectList.bind scope pending' groupBy joins = outcome' at hbind
  cases hbind with
  | ok hab => exact inStep_pure hab
  | error herror => exact fun _ _ _ _ _ => .error herror

end Bound

/-! ## Statements -/

/-- What is read in front of the joins. -/
structure Opening where
  distinct : Bool
  top : Option UInt64
  pending : List PendingItem
  source : Source

/-- What is read between the opening and the sort clause. -/
structure Middle where
  joins : List Join
  scope : Scope
  condition : Option Condition
  groupBy : List ColumnRef

def opening : Parser Opening := do
  expectKeyword .select .select
  let distinct ← eatKeyword .distinct
  let top ← topClause
  let pending ← selectList
  expectKeyword .from .source
  let source ← source
  pure ⟨distinct, top, pending, source⟩

def middle (scope : Scope) : Parser Middle := do
  let (joins, scope) ← joins scope
  let condition ← whereClause scope
  let groupBy ← groupByClause scope
  refuse .having .having
  pure ⟨joins, scope, condition, groupBy⟩

/-- Reads what stands behind the sort clause, and puts the statement together. -/
def closing (comments : List String) (o : Opening) (m : Middle) (orderBy : List OrderItem) :
    Parser Statement := do
  let top ← limitClause o.top
  statementEnd
  let (items, joins) ← bindSelectList m.scope o.pending m.groupBy m.joins
  pure ⟨comments, o.distinct, top, items, o.source, joins, m.condition, m.groupBy, orderBy⟩

/-- The labels that a select list declares. -/
def Opening.labels (o : Opening) : List String :=
  o.pending.filterMap fun p => p.item.label

theorem statementBody_eq (lenient : Bool) (comments : List String) :
    statementBody lenient comments = (do
      let o ← opening
      let m ← middle (Scope.ofSource o.source lenient)
      let orderBy ← orderByClause m.scope o.labels
      closing comments o m orderBy) := by
  simp only [opening, middle, bind_assoc, pure_bind]
  rfl

/-- Openings that were read in step. -/
structure Track.SameOpening (T : Track) (o o' : Opening) : Prop where
  distinct_eq : o.distinct = o'.distinct
  top_eq : o.top = o'.top
  pending : List.Forall₂ T.SamePending o.pending o'.pending
  source_eq : o.source = o'.source

theorem Track.SameOpening.labels_eq {o o' : Opening} (h : T.SameOpening o o') :
    o.labels = o'.labels := by
  have hpending := h.pending
  rw [Opening.labels, Opening.labels]
  generalize o.pending = pending at hpending
  generalize o'.pending = pending' at hpending
  induction hpending with
  | nil => rfl
  | cons hp _ ih => rw [List.filterMap_cons, List.filterMap_cons, hp.item_eq, ih]

theorem inStep_opening : T.InStep d K opening opening T.SameOpening := by
  refine (inStep_expect (T.passes_of_ne (by simp) (by simp)) _).bind fun _ _ _ => ?_
  refine (inStep_eat (T.passes_of_ne (by simp) (by simp))).eq_bind fun distinct => ?_
  refine inStep_topClause.eq_bind fun top => ?_
  refine inStep_selectList.bind fun pending pending' hpending => ?_
  refine (inStep_expect (T.passes_of_ne (by simp) (by simp)) _).bind fun _ _ _ => ?_
  refine inStep_source.eq_bind fun root => ?_
  exact inStep_pure ⟨rfl, rfl, hpending, rfl⟩

theorem inStep_middle (scope : Scope) : T.InStep d K (middle scope) (middle scope) Eq := by
  refine (inStep_joins scope).bind ?_
  rintro ⟨js, scope⟩ _ rfl
  refine (inStep_whereClause scope).eq_bind fun condition => ?_
  refine (inStep_groupByClause scope).eq_bind fun groupBy => ?_
  exact (inStep_refuse _ _).bind fun _ _ _ => inStep_pure rfl

theorem inStep_closing (comments comments' : List String) {o o' : Opening}
    (ho : T.SameOpening o o') (m : Middle) (orderBy : List OrderItem) :
    T.InStep d K (closing comments o m orderBy) (closing comments' o' m orderBy)
      fun s s' => { s with comments := [] } = { s' with comments := [] } := by
  obtain ⟨distinct, top, pending, root⟩ := o
  obtain ⟨distinct', top', pending', root'⟩ := o'
  obtain ⟨rfl, rfl, hpending, rfl⟩ := ho
  refine (inStep_limitClause top).eq_bind fun top => ?_
  refine inStep_statementEnd.bind fun _ _ _ => ?_
  refine (inStep_bindSelectList m.scope hpending m.groupBy m.joins).eq_bind fun owned => ?_
  exact inStep_pure rfl

theorem inStep_statementBody (hsorts : T.sorts = true) (lenient : Bool)
    (comments comments' : List String) :
    T.InStep d K (statementBody lenient comments) (statementBody lenient comments')
      fun s s' => { s with comments := [] } = { s' with comments := [] } := by
  rw [statementBody_eq, statementBody_eq]
  refine inStep_opening.bind fun o o' ho => ?_
  rw [← ho.source_eq, ← ho.labels_eq]
  refine (inStep_middle _).eq_bind fun m => ?_
  refine (inStep_orderByClause hsorts m.scope o.labels).eq_bind fun orderBy => ?_
  exact inStep_closing comments comments' ho m orderBy

theorem inStep_takeComments : T.InStep d K takeComments takeComments fun _ _ => True :=
  fun _ _ hc _ _ => .ok trivial hc (Nat.le_refl _)

theorem inStep_statement (hsorts : T.sorts = true) (lenient : Bool) :
    T.InStep d K (statement lenient) (statement lenient)
      fun s s' => { s with comments := [] } = { s' with comments := [] } :=
  (inStep_refuse _ _).bind fun _ _ _ => inStep_takeComments.bind fun comments comments' _ =>
    inStep_statementBody hsorts lenient comments comments'

/-! ## Texts -/

/-- The bodies of the comments in front of the first other token. -/
def leadingComments : List Token → List String
  | [] => []
  | t :: tokens =>
    match t.kind with
    | .comment body => body :: leadingComments tokens
    | _ => []

/-- Texts whose tokens a parser does not tell apart, comments left out. -/
def SameTokens (text text' : String) : Prop :=
  List.Forall₂ SameToken (spoken (tokenize text)) (spoken (tokenize text'))

instance (text text' : String) : Decidable (SameTokens text text') :=
  inferInstanceAs (Decidable (List.Forall₂ _ _ _))

/-- Moving on collects the comments in front of the next token. -/
theorem comments_moveOn {current : Token} {comments : List String} {tokens : List Token}
    {c : Cursor} (h : Cursor.moveOn current comments tokens = .ok () c) :
    c.comments = comments ++ leadingComments tokens := by
  induction tokens generalizing comments with
  | nil =>
    cases h
    simp [leadingComments]
  | cons t tokens ih =>
    rw [Cursor.moveOn] at h
    rw [leadingComments]
    split at h
    · next body hkind =>
      rw [ih h, hkind, List.append_assoc]
      rfl
    · cases h
    · next hcomment hfault =>
      cases h
      split
      · next body hkind => exact absurd hkind (hcomment body)
      · simp

/-- The cursor on the first token of a text, or the fault that this token is. -/
theorem ofSource_of_spoken {text : String} {t : Token} {more : List Token}
    (h : spoken (tokenize text) = t :: more) :
    (∃ cause, t.kind = .fault cause ∧ Cursor.ofSource text = .error ⟨.scan cause, t.position⟩) ∨
      (∀ cause, t.kind ≠ .fault cause) ∧ ∃ c : Cursor, Cursor.ofSource text = .ok c ∧
        c.rest = spoken (tokenize text) ∧ c.comments = leadingComments (tokenize text) := by
  rcases moveOn_of_spoken ⟨.endOfInput, "", Position.start⟩ h [] with
    ⟨cause, rest, comments, hkind, hmove⟩ | ⟨hfault, rest, comments, hrest, hmove⟩
  · refine .inl ⟨cause, hkind, ?_⟩
    rw [Cursor.ofSource, Cursor.ofTokens, hmove]
  · refine .inr ⟨hfault, _, ?_, ?_, comments_moveOn hmove⟩
    · rw [Cursor.ofSource, Cursor.ofTokens, hmove]
    · rw [Cursor.rest, hrest, h]

/-- The tokens of two texts side by side. -/
def Track.ofTexts {text text' : String} (h : SameTokens text text') : Track where
  left := spoken (tokenize text)
  right := spoken (tokenize text')
  same := h
  ends := endsOnce_spoken (endsOnce_scanFrom _ _ _)
  sorts := true

theorem SameTokens.refl (text : String) : SameTokens text text :=
  List.forall₂_same.2 fun t _ => SameToken.refl t

/-- The tokens of a single text. -/
def Track.ofText (text : String) (sorts : Bool) : Track :=
  { Track.ofTexts (SameTokens.refl text) with sorts }

theorem exists_spoken_tokenize (text : String) : ∃ t more, spoken (tokenize text) = t :: more := by
  refine List.exists_cons_of_ne_nil ?_
  obtain ⟨init, last, hspoken, -⟩ := (Track.ofText text true).ends
  rw [show spoken (tokenize text) = init ++ [last] from hspoken]
  simp

theorem abreast_ofSource {text : String} {c : Cursor} (h : Cursor.ofSource text = .ok c)
    (sorts : Bool) : (Track.ofText text sorts).Abreast c c := by
  obtain ⟨t, more, hspoken⟩ := exists_spoken_tokenize text
  rcases ofSource_of_spoken hspoken with ⟨cause, -, hc⟩ | ⟨-, c', hc, hrest, -⟩
  · rw [h] at hc
    cases hc
  · obtain rfl := Except.ok.inj (h.symm.trans hc)
    exact ⟨0, hrest.symm, hrest.symm, by simp⟩

/-- Texts with the same tokens are read with the same outcome, and a text is read with the comments
in front of it. -/
theorem agree_parse {text text' : String} (h : SameTokens text text') (lenient : Bool) :
    (Track.ofTexts h).Agree (fun s s' => { s with comments := [] } = { s' with comments := [] } ∧
        s.comments = leadingComments (tokenize text) ∧
        s'.comments = leadingComments (tokenize text'))
      (parse text lenient) (parse text' lenient) := by
  obtain ⟨t, more, hspoken⟩ := exists_spoken_tokenize text
  have hsame : List.Forall₂ SameToken (t :: more) (spoken (tokenize text')) := by
    rw [← hspoken]
    exact h
  obtain ⟨t', more', htt', -, hspoken'⟩ := List.forall₂_cons_left_iff.1 hsame
  rw [parse, parse]
  -- both texts begin with a fault or neither does
  rcases ofSource_of_spoken hspoken with ⟨cause, hkind, hc⟩ | ⟨hfault, c, hc, hrest, hcomments⟩
  · rcases ofSource_of_spoken hspoken' with ⟨cause', hkind', hc'⟩ | ⟨hfault', -⟩
    · obtain rfl : cause = cause' := by
        have heq := htt'.kind_eq
        rw [hkind, hkind'] at heq
        exact TokenKind.fault.inj heq
      rw [hc, hc']
      refine .error ⟨rfl, 0, t, t', ?_, ?_, rfl, rfl⟩
      · exact congrArg (·[0]?) hspoken
      · exact congrArg (·[0]?) hspoken'
    · exact absurd (htt'.kind_eq.symm.trans hkind) (hfault' cause)
  · rcases ofSource_of_spoken hspoken' with ⟨cause', hkind', -⟩ | ⟨-, c', hc', hrest', hcomments'⟩
    · exact absurd (htt'.kind_eq.trans hkind') (hfault cause')
    · have habreast : (Track.ofTexts h).Abreast c c' :=
        ⟨0, hrest.symm, hrest'.symm, by simp⟩
      have hmeets := inStep_statement (K := fun _ => True) (T := Track.ofTexts h) rfl lenient c c'
        habreast (Nat.le_refl _) trivial
      rw [hc, hc']
      simp only []
      generalize hs : statement lenient c = outcome at hmeets
      generalize hs' : statement lenient c' = outcome' at hmeets
      cases hmeets with
      | ok hsame _ _ =>
        have hwritten := writable_of_statement (Cursor.isNamed_ofSource hc) hs
        have hwritten' := writable_of_statement (Cursor.isNamed_ofSource hc') hs'
        exact .ok ⟨hsame, hwritten.2.trans hcomments, hwritten'.2.trans hcomments'⟩
      | error herror => exact .error herror

/-- Layout and comments do not affect reading. Of two texts with the same tokens, either both spell
statements that differ in their comments only, or both fail with one message, at corresponding
tokens; and the comments of a statement are those in front of it. -/
theorem parse_of_sameTokens {text text' : String} (h : SameTokens text text') (lenient : Bool) :
    (∃ s s', parse text lenient = .ok s ∧ parse text' lenient = .ok s' ∧
        { s with comments := [] } = { s' with comments := [] } ∧
        s.comments = leadingComments (tokenize text) ∧
        s'.comments = leadingComments (tokenize text')) ∨
      ∃ (e e' : SyntaxError) (n : Nat) (t t' : Token), parse text lenient = .error e ∧
        parse text' lenient = .error e' ∧ e.fault.message = e'.fault.message ∧
        (spoken (tokenize text))[n]? = some t ∧ (spoken (tokenize text'))[n]? = some t' ∧
        e.position = t.position ∧ e'.position = t'.position := by
  have hagree := agree_parse h lenient
  generalize parse text lenient = outcome at hagree
  generalize parse text' lenient = outcome' at hagree
  cases hagree with
  | @ok s s' hsame => exact .inl ⟨s, s', rfl, rfl, hsame⟩
  | @error e e' herror =>
    obtain ⟨n, t, t', ht, ht', hposition, hposition'⟩ := herror.positions
    refine .inr ⟨e, e', n, t, t', rfl, rfl, ?_, ht, ht', hposition, hposition'⟩
    rw [herror.fault_eq]

/-- Two layouts of one query, one of them with comments. -/
def commentedText : String :=
  "-- big ones\r\n/* by name */ select top (2) name n -- label\nfrom account where x <> 'A'"

def plainText : String :=
  "SELECT TOP(2)\tname n FROM account WHERE [x]<>'A'"

/-- Two layouts of one mistake, at different positions. -/
def commentedMistake : String :=
  "select a /* and */ from b\nwhere c != null"

def plainMistake : String :=
  "SELECT a FROM b WHERE c != NULL"

theorem parse_of_sameTokens_commentedText :
    (SameTokens commentedText plainText ∧
      ∃ s s', parse commentedText false = .ok s ∧ parse plainText false = .ok s' ∧
        { s with comments := [] } = { s' with comments := [] } ∧
        s.comments = ["big ones", "by name"] ∧ s'.comments = []) ∧
      SameTokens commentedMistake plainMistake ∧
      ∃ e e', parse commentedMistake true = .error e ∧ parse plainMistake true = .error e' ∧
        e.fault.message = e'.fault.message ∧ e.position ≠ e'.position := by
  have htext : SameTokens commentedText plainText := by decide +kernel
  have hmistake : SameTokens commentedMistake plainMistake := by decide +kernel
  refine ⟨⟨htext, ?_⟩, hmistake, ?_⟩
  · have hok : (parse commentedText false).isOk = true := by decide +kernel
    rcases parse_of_sameTokens htext false with
      ⟨s, s', hs, hs', hsame, hcomments, hcomments'⟩ | ⟨e, -, -, -, -, he, -⟩
    · refine ⟨s, s', hs, hs', hsame, hcomments.trans ?_, hcomments'.trans ?_⟩ <;> decide +kernel
    · rw [he] at hok
      cases hok
  · have hfails : parse commentedMistake true = .error ⟨.comparisonWithNull, ⟨2, 12, 37⟩⟩ := by
      decide +kernel
    have hfails' : parse plainMistake true = .error ⟨.comparisonWithNull, ⟨1, 28, 27⟩⟩ := by
      decide +kernel
    rcases parse_of_sameTokens hmistake true with
      ⟨s, -, hs, -⟩ | ⟨e, e', -, -, -, he, he', hmessage, -⟩
    · rw [hs] at hfails
      cases hfails
    · refine ⟨e, e', he, he', hmessage, ?_⟩
      obtain rfl := Except.error.inj (he.symm.trans hfails)
      obtain rfl := Except.error.inj (he'.symm.trans hfails')
      decide

end FetchQuery.Sql
