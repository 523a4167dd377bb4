import FetchQuery.Proofs.JoinForest
import FetchQuery.Proofs.Sql.ReadingSelect

/-!
# Reading entities and joins back

The lexemes of a join are read as the join, if its parent is known and its qualifier is new;
otherwise they are refused (`reads_join`). Along a list of joins the scope grows by one
qualifier each time (`reads_joins`), so what has to hold of the first join alone has to hold of
every join in the scope of those before it (`ParentsIn`).
-/

set_option autoImplicit false

namespace FetchQuery

/-- The scope with the qualifiers of further joins. -/
def Scope.extendAll (scope : Scope) (joins : List Join) : Scope :=
  { scope with joined := scope.joined ++ joins.map Join.qualifier }

theorem Scope.extendAll_nil (scope : Scope) : scope.extendAll [] = scope := by
  simp [Scope.extendAll]

theorem Scope.extendAll_cons (scope : Scope) (j : Join) (joins : List Join) :
    scope.extendAll (j :: joins) = (scope.extend j.qualifier).extendAll joins := by
  simp [Scope.extendAll, Scope.extend]

theorem Scope.Distinct.of_extendAll {scope : Scope} {joins : List Join}
    (h : (scope.extendAll joins).Distinct) : scope.Distinct := by
  have hlist : (scope.extendAll joins).qualifiers =
      scope.qualifiers ++ joins.map Join.qualifier := rfl
  rw [Scope.Distinct, hlist, List.map_append, List.nodup_append] at h
  exact h.1

namespace Sql

variable {good : Prop}

/-- The kinds that may follow the joins of a statement. -/
def joinsEnds : List TokenKind :=
  [.keyword .where, .keyword .group, .keyword .order, .endOfInput]

/-- The kinds that may follow a join. -/
def joinEnds : List TokenKind :=
  .keyword .inner :: .keyword .left :: joinsEnds

theorem reads_joinKind (kind : JoinKind) (rest : List Lexeme) :
    Reads good joinKind (kindLexemes kind) rest (· = some kind) := by
  cases kind with
  | inner =>
    refine reads_currentKind_bind (k := .keyword .inner) rfl ?_
    refine Reads.bind_cons (reads_advance _ _) fun _ _ => ?_
    exact (reads_expectKeyword .join).bind_nil fun _ _ => reads_pure rfl
  | outer =>
    refine reads_currentKind_bind (k := .keyword .left) rfl ?_
    refine Reads.bind_cons (reads_advance _ _) fun _ _ => ?_
    refine Reads.bind_cons (reads_eatKeyword .outer) fun _ _ => ?_
    exact (reads_expectKeyword .join).bind_nil fun _ _ => reads_pure rfl

theorem reads_joinKind_none {rest : List Lexeme} (h : Opens joinsEnds rest) :
    Reads good joinKind [] rest (· = none) := by
  obtain ⟨k, hk, hnext⟩ := h
  refine reads_currentKind_bind (k := k) hnext ?_
  simp only [joinsEnds, List.mem_cons, List.not_mem_nil, or_false] at hk
  rcases hk with rfl | rfl | rfl | rfl
  all_goals exact reads_pure rfl

theorem reads_joinLink {scope : Scope} {j : Join}
    (hd : (scope.extend j.qualifier).Distinct)
    (hparent : ∀ p, j.parent = some p → p ∈ scope.joined)
    {rest : List Lexeme} (hrest : Opens joinEnds rest) :
    Reads good (joinLink (scope.extend j.qualifier))
      (qualifiedLexemes (j.parent.getD scope.source.qualifier) j.fromAttribute ++
        Lexeme.ofSymbol .equal :: qualifiedLexemes j.qualifier j.toAttribute) rest
      (· = ⟨j.parent, j.fromAttribute, j.toAttribute⟩) := by
  apply reads_currentPosition_bind
  intro position
  have hleft : ∀ rest, nextKind rest ≠ some (.symbol .dot) → Reads good columnRef
      (qualifiedLexemes (j.parent.getD scope.source.qualifier) j.fromAttribute) rest
      (· = ⟨some (j.parent.getD scope.source.qualifier), j.fromAttribute⟩) :=
    fun rest h => reads_columnRef none ⟨some _, j.fromAttribute⟩ h
  refine (hleft _ (by simp)).bind ?_
  rintro _ rfl
  refine Reads.bind_cons (reads_expectSymbol .equal) fun _ _ => ?_
  have hright : Reads good columnRef (qualifiedLexemes j.qualifier j.toAttribute) rest
      (· = ⟨some j.qualifier, j.toAttribute⟩) :=
    reads_columnRef none ⟨some _, j.toAttribute⟩ (hrest.ne (by decide))
  refine hright.bind_nil ?_
  rintro _ rfl
  -- the parent is written on the left, so orienting the two columns keeps them as they are
  have hlink : Reads good (inScope position ((scope.extend j.qualifier).orient
      ⟨some (j.parent.getD scope.source.qualifier), j.fromAttribute⟩
      ⟨some j.qualifier, j.toAttribute⟩)) [] rest
      (· = ⟨j.parent, j.fromAttribute, j.toAttribute⟩) := by
    rw [Scope.orient_written hd hparent]
    exact reads_pure rfl
  obtain ⟨k, hk, hnext⟩ := hrest
  refine reads_currentKind_bind (k := k) hnext ?_
  split
  · exact absurd hk (by decide)
  · exact absurd hk (by decide)
  · exact hlink

/-- A join is read back and its qualifier comes into scope, if it is new there. -/
theorem reads_join {scope : Scope} {j : Join} (hd : scope.Distinct)
    (hgood : good → (scope.extend j.qualifier).Distinct)
    (hparent : ∀ p, j.parent = some p → p ∈ scope.joined) {rest : List Lexeme}
    (hrest : Opens joinEnds rest) :
    Reads good (join j.kind scope)
      (Lexeme.ofName j.entity :: (labelLexemes j.label ++ Lexeme.ofKeyword .on ::
        (qualifiedLexemes (j.parent.getD scope.source.qualifier) j.fromAttribute ++
          Lexeme.ofSymbol .equal :: qualifiedLexemes j.qualifier j.toAttribute))) rest
      (fun result => result = ({ j with items := [] }, scope.extend j.qualifier) ∧
        (scope.extend j.qualifier).Distinct) := by
  apply reads_currentPosition_bind
  intro position
  refine Reads.bind_cons (reads_identifier j.entity) ?_
  rintro _ rfl
  refine (reads_optionalLabel j.label ⟨by simp, by simp⟩).bind ?_
  rintro _ rfl
  have hadd : ∀ rest, Reads good (inScope position (scope.addJoin (j.label.getD j.entity))) [] rest
      (fun added => added = (scope.extend j.qualifier, scope.joined.length) ∧
        (scope.extend j.qualifier).Distinct) := by
    intro rest
    cases hresult : scope.addJoin (j.label.getD j.entity) with
    | ok added =>
      obtain ⟨hfresh, rfl⟩ := Scope.addJoin_eq_ok_iff.1 hresult
      exact reads_pure ⟨rfl, hd.extend hfresh⟩
    | error fault =>
      -- a join is refused only for a qualifier that is taken
      refine reads_of_error (fun hg => ?_) fun c => ⟨⟨.scope fault, position⟩, c, rfl⟩
      have hok : scope.addJoin j.qualifier = .ok (scope.extend j.qualifier, scope.joined.length) :=
        Scope.addJoin_eq_ok_iff.2 ⟨Scope.lower_not_mem_of_extend (hgood hg), rfl⟩
      exact absurd (hresult.symm.trans hok) (by simp)
  refine Reads.bind_look (hadd _) ?_
  rintro _ ⟨rfl, hdistinct⟩
  refine Reads.bind_cons (reads_expectKeyword .on) fun _ _ => ?_
  refine (reads_joinLink hdistinct hparent hrest).bind_nil ?_
  rintro _ rfl
  exact reads_pure ⟨rfl, hdistinct⟩

/-- Joins are read back one by one, each in the scope of those before it. -/
theorem reads_joinsWithin {scope : Scope} {js : List Join} (hd : scope.Distinct)
    (hgood : good → (scope.extendAll js).Distinct) (hparents : ParentsIn scope.joined js)
    {n : Nat} (hn : js.length ≤ n) {rest : List Lexeme} (hrest : Opens joinsEnds rest) :
    Reads good (joinsWithin n scope) (js.flatMap (joinLexemes scope.source.qualifier)) rest
      (fun result => result = (SelectList.emptied js, scope.extendAll js) ∧
        (scope.extendAll js).Distinct) := by
  -- the scope grows with every join, so it is generalized together with the bound
  induction js generalizing scope n with
  | nil =>
    rw [scope.extendAll_nil]
    cases n with
    | zero => exact reads_pure ⟨rfl, hd⟩
    | succ n =>
      refine (reads_joinKind_none hrest).bind_nil ?_
      rintro _ rfl
      exact reads_pure ⟨rfl, hd⟩
  | cons j js ih =>
    rw [List.length_cons] at hn
    obtain ⟨n, rfl⟩ := Nat.exists_eq_succ_of_ne_zero (n := n) (by omega)
    rw [Scope.extendAll_cons] at hgood ⊢
    have hnext : Opens joinEnds (js.flatMap (joinLexemes scope.source.qualifier) ++ rest) := by
      cases js with
      | nil => exact hrest.mono (by decide)
      | cons j' js =>
        rw [List.flatMap_cons, joinLexemes]
        cases j'.kind <;> exact opens_cons (by decide)
    rw [List.flatMap_cons, joinLexemes, List.append_assoc]
    refine (reads_joinKind j.kind _).bind ?_
    rintro _ rfl
    refine (reads_join hd (fun hg => (hgood hg).of_extendAll) hparents.1 hnext).bind ?_
    rintro _ ⟨rfl, hdistinct⟩
    refine (ih hdistinct hgood hparents.2 (by omega)).bind_nil ?_
    rintro _ ⟨rfl, hall⟩
    exact reads_pure ⟨rfl, hall⟩

/-- The joins of a statement are read back, unless two entities have the same qualifier. -/
theorem reads_joins {scope : Scope} {js : List Join} (hd : scope.Distinct)
    (hgood : good → (scope.extendAll js).Distinct) (hparents : ParentsIn scope.joined js)
    {rest : List Lexeme} (hrest : Opens joinsEnds rest) :
    Reads good (joins scope) (js.flatMap (joinLexemes scope.source.qualifier)) rest
      (fun result => result = (SelectList.emptied js, scope.extendAll js) ∧
        (scope.extendAll js).Distinct) := by
  refine reads_remaining_bind fun n hn =>
    reads_joinsWithin hd hgood hparents (Nat.le_trans ?_ hn) hrest
  -- every join has at least one lexeme, so the tokens left bound the number of joins
  clear hd hgood hparents hn
  induction js with
  | nil => exact Nat.zero_le _
  | cons j js ih =>
    rw [List.flatMap_cons, List.length_append, List.length_cons, joinLexemes]
    simp only [List.length_append, List.length_cons]
    omega

/-- The root entity is read back. -/
theorem reads_source (root : Source) {rest : List Lexeme} (hrest : Opens joinEnds rest) :
    Reads good source (Lexeme.ofName root.entity :: labelLexemes root.label) rest (· = root) := by
  refine reads_isAt_ne_bind ?_ ?_
  · simpa using Lexeme.kind_ofName_ne root.entity (k := .symbol .openParen) (by simp) (by simp)
  · refine Reads.bind_cons (reads_identifier root.entity) ?_
    rintro _ rfl
    have hdot : nextKind (labelLexemes root.label ++ rest) ≠ some (.symbol .dot) := by
      cases root.label with
      | none => exact hrest.ne (by decide)
      | some label => simp [labelLexemes]
    refine reads_isAt_ne_bind hdot ?_
    refine (reads_optionalLabel root.label (hrest.noLabel (by decide) (by decide))).bind_nil ?_
    rintro _ rfl
    exact reads_pure rfl

end Sql

end FetchQuery
