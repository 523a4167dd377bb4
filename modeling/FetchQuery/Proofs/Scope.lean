import FetchQuery.Scope

/-!
# Resolution of names

A qualifier names the first entity of the scope that has it, letter case aside (`Names`), and that
is what it is resolved to (`resolve_eq_ok_iff`). In a scope whose qualifiers differ by more than
letter case, every qualifier finds its own entity (`find?_root`, `find?_joined`). A column is bound
to the entity that its qualifier names and gets the declared spelling (`bind_eq_ok_iff`); from that
spelling it is bound to itself again (`bind_written_root`, `bind_written_joined`), if columns of the
root are written with the root's qualifier as soon as there are joins.

The link of a join follows from the two columns it compares and from what the qualifier of the
parent's column names (`orient_eq_ok_iff`). It goes to the root or to an entity that was joined
earlier (`exists_index_of_declared`, `orient_spec`), and is recovered from the two columns
(`orient_written`).
-/

set_option autoImplicit false

namespace FetchQuery

theorem Text.sameName_iff {s t : String} : Text.sameName s t = true ↔ Text.lower s = Text.lower t :=
  beq_iff_eq

/-- Whether a qualifier is none or belongs to the given ones. -/
def ColumnRef.OwnedBy (c : ColumnRef) (qualifiers : List String) : Prop :=
  ∀ q, c.qualifier = some q → q ∈ qualifiers

namespace Scope

/-- The qualifiers of a scope, the root's first. -/
def qualifiers (scope : Scope) : List String :=
  scope.source.qualifier :: scope.joined

/-- No two qualifiers of the scope are the same but for letter case. -/
def Distinct (scope : Scope) : Prop :=
  (scope.qualifiers.map Text.lower).Nodup

/-- The qualifier that columns of the root are written with: none without joins. -/
def rootName (scope : Scope) : Option String :=
  if scope.joined.isEmpty then none else some scope.source.qualifier

theorem find?_root (scope : Scope) : scope.find? scope.source.qualifier = some .root := by
  rw [find?, if_pos (Text.sameName_iff.2 rfl)]

theorem not_mem_of_distinct {scope : Scope} (h : scope.Distinct) :
    Text.lower scope.source.qualifier ∉ scope.joined.map Text.lower := by
  rw [Distinct, qualifiers, List.map_cons, List.nodup_cons] at h
  exact h.1

theorem find?_joined {scope : Scope} (h : scope.Distinct) {i : Nat} {q : String}
    (hi : scope.joined[i]? = some q) : scope.find? q = some (.join i) := by
  have hroot : Text.sameName scope.source.qualifier q ≠ true := by
    intro hsame
    refine not_mem_of_distinct h ?_
    rw [Text.sameName_iff.1 hsame]
    exact List.mem_map_of_mem (List.mem_of_getElem? hi)
  have hnodup : (scope.joined.map Text.lower).Nodup := by
    rw [Distinct, qualifiers, List.map_cons, List.nodup_cons] at h
    exact h.2
  obtain ⟨hlt, hget⟩ := List.getElem?_eq_some_iff.1 hi
  have hindex : scope.joined.findIdx? (fun q' => Text.sameName q' q) = some i := by
    rw [List.findIdx?_eq_some_iff_getElem]
    -- an earlier hit would be a second qualifier of the same name
    refine ⟨hlt, by rw [hget]; exact Text.sameName_iff.2 rfl, fun k hk hsame => ?_⟩
    have heq : (scope.joined.map Text.lower)[k]? = (scope.joined.map Text.lower)[i]? := by
      rw [List.getElem?_map, List.getElem?_map, hi, List.getElem?_eq_getElem (by omega)]
      simpa using Text.sameName_iff.1 hsame
    have hki := (List.getElem?_inj (by rw [List.length_map]; omega) hnodup).1 heq
    omega
  rw [find?, if_neg hroot, hindex]
  rfl

/-- An entity of the scope: the root, or a join with its position. -/
def Has (scope : Scope) : Binding → Prop
  | .root => True
  | .join i => i < scope.joined.length

theorem Has.eq_root_or_join {scope : Scope} {owner : Binding} (h : scope.Has owner) :
    owner = .root ∨ ∃ i < scope.joined.length, owner = .join i := by
  cases owner with
  | root => exact .inl rfl
  | join i => exact .inr ⟨i, h, rfl⟩

/-- The entity that a qualifier names: the first in the scope whose own qualifier is the same, letter
case aside. Without a qualifier it is the root. -/
inductive Names (scope : Scope) : Option String → Binding → Prop
  | bare : scope.Names none .root
  | root {q : String} (hroot : Text.sameName scope.source.qualifier q = true) :
      scope.Names (some q) .root
  | join {q p : String} {i : Nat} (hroot : Text.sameName scope.source.qualifier q = false)
      (hi : scope.joined[i]? = some p) (hp : Text.sameName p q = true)
      (hfirst : ∀ p' ∈ scope.joined.take i, Text.sameName p' q = false) :
      scope.Names (some q) (.join i)

theorem find?_eq_some_iff {scope : Scope} {q : String} {owner : Binding} :
    scope.find? q = some owner ↔ scope.Names (some q) owner := by
  rw [find?]
  cases hroot : Text.sameName scope.source.qualifier q with
  | true =>
    rw [if_pos rfl]
    constructor
    · rintro ⟨⟩
      exact .root hroot
    · rintro (_ | _ | ⟨hroot', -, -, -⟩)
      · rfl
      · simp [hroot] at hroot'
  | false =>
    rw [if_neg Bool.false_ne_true, Option.map_eq_some_iff]
    simp only [List.findIdx?_eq_some_iff_getElem]
    constructor
    · rintro ⟨i, ⟨hlt, hp, hfirst⟩, rfl⟩
      refine .join hroot (List.getElem?_eq_getElem hlt) hp fun p' hp' => ?_
      obtain ⟨k, hk, rfl⟩ := List.mem_take_iff_getElem.1 hp'
      simpa using hfirst k (by omega)
    · rintro (_ | hroot' | ⟨-, hi, hp, hfirst⟩)
      · simp [hroot] at hroot'
      · obtain ⟨hlt, rfl⟩ := List.getElem?_eq_some_iff.1 hi
        refine ⟨_, ⟨hlt, hp, fun k hk => ?_⟩, rfl⟩
        simpa using hfirst _ (List.mem_take_iff_getElem.2 ⟨k, by omega, rfl⟩)

theorem has_of_find? {scope : Scope} {q : String} {owner : Binding}
    (h : scope.find? q = some owner) : scope.Has owner := by
  cases find?_eq_some_iff.1 h with
  | root => trivial
  | join _ hi => exact (List.getElem?_eq_some_iff.1 hi).1

/-- A found join has the given qualifier, letter case aside. -/
theorem lower_eq_of_find? {scope : Scope} {q : String} {i : Nat}
    (h : scope.find? q = some (.join i)) :
    ∃ p, scope.joined[i]? = some p ∧ Text.lower p = Text.lower q := by
  cases find?_eq_some_iff.1 h with
  | join _ hi hp => exact ⟨_, hi, Text.sameName_iff.1 hp⟩

theorem find?_eq_none_iff {scope : Scope} {q : String} :
    scope.find? q = none ↔ Text.lower q ∉ scope.qualifiers.map Text.lower := by
  rw [find?]
  split
  · next h => simp [qualifiers, Text.sameName_iff.1 h]
  · next h =>
    rw [Text.sameName_iff] at h
    rw [Option.map_eq_none_iff, List.findIdx?_eq_none_iff]
    simp [qualifiers, Text.sameName, Ne.symm h]

/-- The declared qualifier of an entity is none or one of the joined ones. -/
theorem mem_of_declared {scope : Scope} {owner : Binding} {q : String}
    (h : scope.declared owner = some q) : q ∈ scope.joined := by
  cases owner with
  | root => simp [declared] at h
  | join i => exact List.mem_of_getElem? h

theorem resolve_eq_ok_iff {scope : Scope} {q : Option String} {owner : Binding} :
    scope.resolve q = .ok owner ↔ scope.Names q owner := by
  cases q with
  | none =>
    constructor
    · rintro ⟨⟩
      exact .bare
    · rintro ⟨⟩
      rfl
  | some q =>
    rw [← find?_eq_some_iff, resolve]
    cases scope.find? q <;> simp

theorem has_of_resolve {scope : Scope} {q : Option String} {owner : Binding}
    (h : scope.resolve q = .ok owner) : scope.Has owner := by
  cases q with
  | none =>
    cases resolve_eq_ok_iff.1 h
    trivial
  | some q => exact has_of_find? (find?_eq_some_iff.2 (resolve_eq_ok_iff.1 h))

/-- A column may go without a qualifier if nothing else than the root can be meant. -/
def Clear (scope : Scope) (c : ColumnRef) : Prop :=
  c.qualifier = none → scope.lenient = true ∨ scope.joined = []

/-- A column is bound to the entity that its qualifier names, keeps its name and gets the declared
qualifier. -/
theorem bind_eq_ok_iff {scope : Scope} {c bound : ColumnRef} {owner : Binding} :
    scope.bind c = .ok (bound, owner) ↔
      scope.Clear c ∧ scope.Names c.qualifier owner ∧ bound = ⟨scope.declared owner, c.name⟩ := by
  have hif : (c.qualifier.isNone && !scope.lenient && scope.hasJoins) = true ↔ ¬scope.Clear c := by
    simp [Clear, hasJoins, and_assoc]
  rw [bind, ← resolve_eq_ok_iff]
  by_cases hclear : scope.Clear c
  · rw [if_neg fun h => hif.1 h hclear]
    cases scope.resolve c.qualifier with
    | error fault => simp
    | ok owner' => grind
  · rw [if_pos (hif.2 hclear)]
    simp [hclear]

theorem bind_some {scope : Scope} {q : String} {owner : Binding} (h : scope.find? q = some owner)
    (name : String) :
    scope.bind ⟨some q, name⟩ = .ok (⟨scope.declared owner, name⟩, owner) := by
  simp [bind, resolve, h]

/-- A column of the root is bound to itself from how it is written. -/
theorem bind_written_root (scope : Scope) (name : String) :
    scope.bind ⟨scope.rootName, name⟩ = .ok (⟨none, name⟩, .root) := by
  by_cases hj : scope.joined.isEmpty = true
  · simp [rootName, hj, bind, hasJoins, resolve, declared]
  · rw [rootName, if_neg hj, bind_some scope.find?_root]
    rfl

/-- A column of a joined entity is bound to itself. -/
theorem bind_written_joined {scope : Scope} (h : scope.Distinct) {i : Nat} {q : String}
    (hi : scope.joined[i]? = some q) (name : String) :
    scope.bind ⟨some q, name⟩ = .ok (⟨some q, name⟩, .join i) := by
  rw [bind_some (find?_joined h hi), declared, hi]

/-- The scope with a further joined entity. -/
def extend (scope : Scope) (q : String) : Scope :=
  { scope with joined := scope.joined ++ [q] }

/-- An entity is registered exactly under a qualifier that is not in use. -/
theorem addJoin_eq_ok_iff {scope : Scope} {q : String} {result : Scope × Nat} :
    scope.addJoin q = .ok result ↔
      Text.lower q ∉ scope.qualifiers.map Text.lower ∧
        result = (scope.extend q, scope.joined.length) := by
  rw [← find?_eq_none_iff, addJoin]
  cases scope.find? q with
  | none => simp [extend, eq_comm]
  | some owner => simp

theorem Distinct.extend {scope : Scope} (h : scope.Distinct) {q : String}
    (hq : Text.lower q ∉ scope.qualifiers.map Text.lower) : (scope.extend q).Distinct := by
  have hlist : (scope.extend q).qualifiers = scope.qualifiers ++ [q] := rfl
  rw [Distinct, hlist, List.map_append, List.nodup_append]
  refine ⟨h, by simp, ?_⟩
  intro a ha b hb hab
  obtain rfl : b = Text.lower q := by simpa using hb
  exact hq (hab ▸ ha)

theorem lower_not_mem_of_extend {scope : Scope} {q : String} (h : (scope.extend q).Distinct) :
    Text.lower q ∉ scope.qualifiers.map Text.lower := by
  have hlist : (scope.extend q).qualifiers = scope.qualifiers ++ [q] := rfl
  rw [Distinct, hlist, List.map_append, List.nodup_append] at h
  intro hmem
  exact h.2.2 _ hmem _ (by simp) rfl

theorem newest_extend (scope : Scope) (q : String) : (scope.extend q).newest = q := by
  simp [newest, Scope.extend]

theorem ofNewest_extend (scope : Scope) (q : String) (column : ColumnRef) :
    (scope.extend q).ofNewest column = true ↔
      ∃ q', column.qualifier = some q' ∧ Text.lower q' = Text.lower q := by
  rw [ofNewest, newest_extend, Option.any_eq_true]
  simp only [Text.sameName_iff]

/-- The parent side of a join condition does not name the newest entity. -/
theorem ofNewest_of_sides {scope : Scope} {left right parent child : ColumnRef}
    (h : scope.sides left right = .ok (parent, child)) :
    scope.ofNewest parent = false ∧
      (parent = left ∧ child = right ∨ parent = right ∧ child = left) := by
  rw [sides] at h
  -- the cases are whether each column names the newest entity
  split at h
  · simp at h
  · next hl hr =>
    obtain ⟨rfl, rfl⟩ : right = parent ∧ left = child := by simpa using h
    exact ⟨hr, Or.inr ⟨rfl, rfl⟩⟩
  · next hl hr =>
    obtain ⟨rfl, rfl⟩ : left = parent ∧ right = child := by simpa using h
    exact ⟨hl, Or.inl ⟨rfl, rfl⟩⟩
  · next hl hr =>
    split at h
    · obtain ⟨rfl, rfl⟩ : left = parent ∧ right = child := by simpa using h
      exact ⟨hl, Or.inl ⟨rfl, rfl⟩⟩
    · simp at h

/-- A condition gives a link exactly if its sides are told apart and the parent's side can be
resolved; the link has the declared qualifier of the parent and the attributes of the sides. -/
theorem orient_eq_ok_iff {scope : Scope} {left right : ColumnRef} {link : JoinLink} :
    scope.orient left right = .ok link ↔
      ∃ parent child owner, scope.sides left right = .ok (parent, child) ∧
        (parent.qualifier = none → scope.lenient = true) ∧
        scope.resolve parent.qualifier = .ok owner ∧
        link = ⟨scope.declared owner, parent.name, child.name⟩ := by
  rw [orient]
  cases hsides : scope.sides left right with
  | error fault => simp
  | ok sides =>
    obtain ⟨parent, child⟩ := sides
    by_cases hbare : parent.qualifier = none → scope.lenient = true
    · have hif : ¬(parent.qualifier.isNone && !scope.lenient) = true := by
        simpa using hbare
      simp only [if_neg hif]
      cases howner : scope.resolve parent.qualifier with
      | error fault => grind
      | ok owner => grind
    · have hif : (parent.qualifier.isNone && !scope.lenient) = true := by
        simpa using hbare
      simp only [if_pos hif]
      grind

theorem newest_of_getElem? {scope : Scope} {i : Nat} {q : String} (hi : scope.joined[i]? = some q)
    (hlast : i + 1 = scope.joined.length) : scope.newest = q := by
  rw [newest, List.getLast?_eq_getElem?, ← hlast, Nat.add_sub_cancel, hi]
  rfl

/-- An entity that is named by a qualifier other than the newest one's came before the newest. -/
theorem exists_index_of_declared {scope : Scope} {column : ColumnRef} {owner : Binding}
    (hnewest : scope.ofNewest column = false) (howner : scope.resolve column.qualifier = .ok owner)
    {p : String} (hp : scope.declared owner = some p) :
    ∃ i, scope.joined[i]? = some p ∧ i + 1 < scope.joined.length := by
  generalize hq : column.qualifier = qualifier at howner
  cases resolve_eq_ok_iff.1 howner with
  | bare => cases hp
  | root => cases hp
  | @join q p' i hroot hi hsame hfirst =>
    obtain rfl : p' = p := Option.some.inj (hi.symm.trans hp)
    obtain ⟨hlt, -⟩ := List.getElem?_eq_some_iff.1 hi
    refine ⟨i, hi, Nat.lt_of_le_of_ne hlt fun hlast => ?_⟩
    -- the last join is the newest entity, which the column does not name
    have hnames : scope.ofNewest column = true := by
      rw [ofNewest, hq, newest_of_getElem? hi hlast]
      exact Text.sameName_iff.2 (Text.sameName_iff.1 hsame).symm
    rw [hnewest] at hnames
    exact Bool.false_ne_true hnames

/-- A join hangs off the root or an entity that was joined before, by attributes that the
condition names. -/
theorem orient_spec {scope : Scope} {q : String} {left right : ColumnRef} {link : JoinLink}
    (h : (scope.extend q).orient left right = .ok link) :
    (∀ p, link.parent = some p → p ∈ scope.joined) ∧
      (link.fromAttribute = left.name ∧ link.toAttribute = right.name ∨
        link.fromAttribute = right.name ∧ link.toAttribute = left.name) := by
  obtain ⟨parent, child, owner, hsides, -, howner, rfl⟩ := orient_eq_ok_iff.1 h
  obtain ⟨hnewest, hcols⟩ := ofNewest_of_sides hsides
  constructor
  · intro p hp
    obtain ⟨i, hi, hlt⟩ := exists_index_of_declared hnewest howner hp
    change (scope.joined ++ [q])[i]? = some p at hi
    have hbefore : i < scope.joined.length := by
      simpa [Scope.extend] using hlt
    rw [List.getElem?_append_left hbefore] at hi
    exact List.mem_of_getElem? hi
  · rcases hcols with ⟨rfl, rfl⟩ | ⟨rfl, rfl⟩
    · exact Or.inl ⟨rfl, rfl⟩
    · exact Or.inr ⟨rfl, rfl⟩

/-- A link is recovered from the columns it compares, the parent's first. -/
theorem orient_written {scope : Scope} {q : String} (hd : (scope.extend q).Distinct)
    {parent : Option String} (hparent : ∀ p, parent = some p → p ∈ scope.joined)
    (fromAttribute toAttribute : String) :
    (scope.extend q).orient ⟨some (parent.getD scope.source.qualifier), fromAttribute⟩
      ⟨some q, toAttribute⟩ = .ok ⟨parent, fromAttribute, toAttribute⟩ := by
  have hnew : Text.lower q ∉ scope.qualifiers.map Text.lower := lower_not_mem_of_extend hd
  have hmem : parent.getD scope.source.qualifier ∈ scope.qualifiers := by
    cases parent with
    | none => exact List.mem_cons_self
    | some p => exact List.mem_cons_of_mem _ (hparent p rfl)
  -- of the two columns only the second names the newest entity
  have hleft : (scope.extend q).ofNewest
      ⟨some (parent.getD scope.source.qualifier), fromAttribute⟩ = false := by
    rw [← Bool.not_eq_true, ofNewest_extend]
    rintro ⟨p, hp, hlower⟩
    obtain rfl := Option.some.inj hp
    exact hnew (hlower ▸ List.mem_map_of_mem hmem)
  have hright : (scope.extend q).ofNewest ⟨some q, toAttribute⟩ = true :=
    (ofNewest_extend scope q _).2 ⟨q, rfl, rfl⟩
  have hsides : (scope.extend q).sides
      ⟨some (parent.getD scope.source.qualifier), fromAttribute⟩ ⟨some q, toAttribute⟩ =
      .ok (⟨some (parent.getD scope.source.qualifier), fromAttribute⟩, ⟨some q, toAttribute⟩) := by
    rw [sides, hleft, hright]
  have hresolve : ∃ owner,
      (scope.extend q).find? (parent.getD scope.source.qualifier) = some owner ∧
        (scope.extend q).declared owner = parent := by
    cases parent with
    | none => exact ⟨.root, find?_root _, rfl⟩
    | some p =>
      obtain ⟨i, hi⟩ := List.mem_iff_getElem?.1 (hparent p rfl)
      have hi' : (scope.extend q).joined[i]? = some p := by
        obtain ⟨hlt, -⟩ := List.getElem?_eq_some_iff.1 hi
        exact (List.getElem?_append_left hlt).trans hi
      exact ⟨.join i, find?_joined hd hi', hi'⟩
  obtain ⟨owner, hfind, hdeclared⟩ := hresolve
  simp [orient, hsides, resolve, hfind, hdeclared]

end Scope

end FetchQuery
