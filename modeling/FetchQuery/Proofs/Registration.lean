import FetchQuery.Proofs.Scope
import FetchQuery.Proofs.WellBound

/-!
# Registering joins

A scope grows while the joins of a query are read. `register` is one request to take in a joined
entity, with the answer and the scope behind it; `registerAll` is a sequence of them, in which any
may be refused.

A request is refused exactly if its qualifier is in use (`register_of_uses`, `register_of_not_uses`),
so distinct qualifiers stay distinct (`Distinct.registerAll`). Nothing that is registered moves
(`extends_registerAll`), so what a qualifier names is what it goes on to name
(`Extends.resolve_eq_ok`, `Extends.bind_eq_ok`).
-/

set_option autoImplicit false

namespace FetchQuery

theorem Text.sameName_comm (s t : String) : Text.sameName s t = Text.sameName t s := by
  rw [Text.sameName, Text.sameName, BEq.comm]

namespace Scope

/-- The answer to a request for a further joined entity, and the scope behind it. -/
def register (scope : Scope) (q : String) : Except ScopeFault Nat × Scope :=
  match scope.addJoin q with
  | .ok (extended, index) => (.ok index, extended)
  | .error fault => (.error fault, scope)

/-- The scope behind a sequence of requests. -/
def registerAll (scope : Scope) (qs : List String) : Scope :=
  qs.foldl (fun scope q => (scope.register q).2) scope

/-- Whether a qualifier is in use, letter case aside. -/
def Uses (scope : Scope) (q : String) : Prop :=
  ∃ p ∈ scope.qualifiers, Text.sameName p q = true

theorem uses_iff {scope : Scope} {q : String} :
    scope.Uses q ↔ Text.lower q ∈ scope.qualifiers.map Text.lower := by
  simp only [Uses, Text.sameName_iff, List.mem_map]

/-! ## One request -/

theorem register_of_uses {scope : Scope} {q : String} (h : scope.Uses q) :
    ∃ fault, scope.register q = (.error fault, scope) := by
  rw [register]
  cases hadd : scope.addJoin q with
  | error fault => exact ⟨fault, rfl⟩
  | ok result => exact absurd (uses_iff.1 h) (addJoin_eq_ok_iff.1 hadd).1

theorem register_of_not_uses {scope : Scope} {q : String} (h : ¬scope.Uses q) :
    scope.register q = (.ok scope.joined.length, scope.extend q) := by
  have hadd : scope.addJoin q = .ok (scope.extend q, scope.joined.length) :=
    addJoin_eq_ok_iff.2 ⟨mt uses_iff.2 h, rfl⟩
  rw [register, hadd]

theorem register_refused_iff {scope : Scope} {q : String} :
    (∃ fault, scope.register q = (.error fault, scope)) ↔ scope.Uses q := by
  refine ⟨?_, register_of_uses⟩
  rintro ⟨fault, hfault⟩
  by_cases huses : scope.Uses q
  · exact huses
  · rw [register_of_not_uses huses] at hfault
    cases hfault

theorem register_accepted_iff {scope : Scope} {q : String} :
    scope.register q = (.ok scope.joined.length, scope.extend q) ↔ ¬scope.Uses q := by
  refine ⟨?_, register_of_not_uses⟩
  intro haccepted huses
  obtain ⟨fault, hfault⟩ := register_of_uses huses
  rw [hfault] at haccepted
  cases haccepted

theorem Distinct.register {scope : Scope} (h : scope.Distinct) (q : String) :
    (scope.register q).2.Distinct := by
  by_cases huses : scope.Uses q
  · obtain ⟨fault, hfault⟩ := register_of_uses huses
    rw [hfault]
    exact h
  · rw [register_of_not_uses huses]
    exact h.extend (mt uses_iff.2 huses)

/-! ## A sequence of requests -/

theorem distinct_ofSource (source : Source) (lenient : Bool) :
    (ofSource source lenient).Distinct := by
  simp [Distinct, qualifiers, ofSource]

theorem Distinct.registerAll {scope : Scope} (h : scope.Distinct) (qs : List String) :
    (scope.registerAll qs).Distinct := by
  induction qs generalizing scope with
  | nil => exact h
  | cons q qs ih => exact ih (h.register q)

/-- The qualifiers behind a sequence of requests are all that were asked for, each in the spelling
that came first. -/
theorem qualifiers_registerAll (scope : Scope) (qs : List String) :
    (scope.registerAll qs).qualifiers =
      List.eraseDupsBy.loop Text.sameName qs scope.qualifiers.reverse := by
  -- the qualifiers so far are what the list has kept so far, in reverse
  induction qs generalizing scope with
  | nil => rw [List.eraseDupsBy.loop, List.reverse_reverse, registerAll, List.foldl_nil]
  | cons q qs ih =>
    have hany : scope.qualifiers.reverse.any (Text.sameName q) = true ↔ scope.Uses q := by
      rw [List.any_reverse, List.any_eq_true, Uses]
      simp only [Text.sameName_comm q]
    rw [registerAll, List.foldl_cons, ← registerAll, ih, List.eraseDupsBy.loop]
    by_cases huses : scope.Uses q
    · obtain ⟨fault, hfault⟩ := register_of_uses huses
      rw [hany.2 huses, hfault]
    · rw [Bool.eq_false_iff.2 (mt hany.1 huses), register_of_not_uses huses]
      have hnext : (scope.extend q).qualifiers.reverse = q :: scope.qualifiers.reverse := by
        simp [qualifiers, Scope.extend]
      rw [hnext]

/-! ## What stays -/

/-- The large scope has the entities of the small one, in their places, and perhaps further joins
behind them. -/
def Extends (small large : Scope) : Prop :=
  ∃ more, large = { small with joined := small.joined ++ more }

theorem Extends.refl (scope : Scope) : scope.Extends scope :=
  ⟨[], by rw [List.append_nil]⟩

theorem Extends.trans {small middle large : Scope} (h : small.Extends middle)
    (h' : middle.Extends large) : small.Extends large := by
  obtain ⟨more, rfl⟩ := h
  obtain ⟨further, rfl⟩ := h'
  exact ⟨more ++ further, by rw [← List.append_assoc]⟩

theorem extends_register (scope : Scope) (q : String) : scope.Extends (scope.register q).2 := by
  by_cases huses : scope.Uses q
  · obtain ⟨fault, hfault⟩ := register_of_uses huses
    rw [hfault]
    exact .refl scope
  · rw [register_of_not_uses huses]
    exact ⟨[q], rfl⟩

theorem extends_registerAll (scope : Scope) (qs : List String) :
    scope.Extends (scope.registerAll qs) := by
  induction qs generalizing scope with
  | nil => exact .refl scope
  | cons q qs ih => exact (scope.extends_register q).trans (ih _)

section Extends

variable {small large : Scope} {q : String} {owner : Binding}

/-- A qualifier names the first entity that has it, so further joins do not change what it names. -/
theorem Extends.names (h : small.Extends large) (hnames : small.Names (some q) owner) :
    large.Names (some q) owner := by
  obtain ⟨more, rfl⟩ := h
  cases hnames with
  | root hroot => exact .root hroot
  | join hroot hi hp hfirst =>
    obtain ⟨hlt, -⟩ := List.getElem?_eq_some_iff.1 hi
    refine .join hroot ((List.getElem?_append_left hlt).trans hi) hp ?_
    -- in front of the join that is named nothing has changed
    rw [List.take_append_of_le_length (Nat.le_of_lt hlt)]
    exact hfirst

theorem Extends.declared (h : small.Extends large) (hnames : small.Names (some q) owner) :
    large.declared owner = small.declared owner := by
  obtain ⟨more, rfl⟩ := h
  cases hnames with
  | root => rfl
  | join _ hi => exact List.getElem?_append_left (List.getElem?_eq_some_iff.1 hi).1

theorem Extends.resolve_eq_ok (h : small.Extends large)
    (hresolve : small.resolve (some q) = .ok owner) : large.resolve (some q) = .ok owner :=
  resolve_eq_ok_iff.2 (h.names (resolve_eq_ok_iff.1 hresolve))

theorem Extends.bind_eq_ok (h : small.Extends large) {name : String} {result : ColumnRef × Binding}
    (hbind : small.bind ⟨some q, name⟩ = .ok result) :
    large.bind ⟨some q, name⟩ = .ok result := by
  obtain ⟨bound, owner⟩ := result
  obtain ⟨-, hnames, rfl⟩ := bind_eq_ok_iff.1 hbind
  refine bind_eq_ok_iff.2 ⟨?_, h.names hnames, ?_⟩
  · intro hnone
    cases hnone
  · rw [h.declared hnames]

end Extends

/-! ## Unambiguous scopes -/

theorem find?_congr (scope : Scope) {p q : String} (h : Text.sameName p q = true) :
    scope.find? p = scope.find? q := by
  have hsame : ∀ s, Text.sameName s p = Text.sameName s q := by
    intro s
    rw [Text.sameName, Text.sameName, Text.sameName_iff.1 h]
  simp only [find?, hsame]

/-- In a scope with distinct qualifiers a join is named by its qualifier and by no other. -/
theorem Distinct.resolve_join_iff {scope : Scope} (h : scope.Distinct) {q : String} {i : Nat} :
    scope.resolve (some q) = .ok (.join i) ↔
      ∃ p, scope.joined[i]? = some p ∧ Text.sameName p q = true := by
  rw [resolve_eq_ok_iff]
  constructor
  · intro hnames
    cases hnames with
    | join _ hi hp => exact ⟨_, hi, hp⟩
  · rintro ⟨p, hi, hp⟩
    rw [← find?_eq_some_iff, ← find?_congr scope hp]
    exact find?_joined h hi

theorem resolve_root_iff {scope : Scope} {q : String} :
    scope.resolve (some q) = .ok .root ↔ Text.sameName scope.source.qualifier q = true := by
  rw [resolve_eq_ok_iff]
  constructor
  · intro hnames
    cases hnames with
    | root hroot => exact hroot
  · exact .root

/-- What holds of the qualifiers of a scope. -/
structure Unambiguous (scope : Scope) : Prop where
  /-- No two entities have the same qualifier, letter case aside. -/
  distinct : scope.qualifiers.Pairwise fun p q => Text.sameName p q = false
  /-- A request is refused exactly if its qualifier is in use, and changes nothing then. -/
  refused : ∀ q, (∃ fault, scope.register q = (.error fault, scope)) ↔ scope.Uses q
  /-- Any other entity comes behind those that are there, and the answer is the number of joins so
  far. -/
  accepted : ∀ q,
    scope.register q = (.ok scope.joined.length, scope.extend q) ↔ ¬scope.Uses q
  /-- The root is named by its own qualifier. -/
  root : ∀ q, scope.resolve (some q) = .ok .root ↔
    Text.sameName scope.source.qualifier q = true
  /-- A join is named by its own qualifier. -/
  join : ∀ q i, scope.resolve (some q) = .ok (.join i) ↔
    ∃ p, scope.joined[i]? = some p ∧ Text.sameName p q = true
  /-- What a qualifier names does not change when further requests follow. -/
  resolve_kept : ∀ q owner more, scope.resolve (some q) = .ok owner →
    (scope.registerAll more).resolve (some q) = .ok owner
  /-- Nor does what a qualified column is bound to. -/
  bind_kept : ∀ q name result more, scope.bind ⟨some q, name⟩ = .ok result →
    (scope.registerAll more).bind ⟨some q, name⟩ = .ok result

theorem Distinct.unambiguous {scope : Scope} (h : scope.Distinct) : scope.Unambiguous where
  distinct := Statement.pairwise_sameName_iff.2 h
  refused _ := register_refused_iff
  accepted _ := register_accepted_iff
  root _ := resolve_root_iff
  join _ _ := h.resolve_join_iff
  resolve_kept _ _ more hresolve := (scope.extends_registerAll more).resolve_eq_ok hresolve
  bind_kept _ _ _ more hbind := (scope.extends_registerAll more).bind_eq_ok hbind

/-- Whatever joins are asked for, one after the other, the scope of a query is unambiguous all the
time. Its qualifiers are the root's and those that were asked for, in this order, each only where it
comes first. -/
theorem registerAll_unambiguous (source : Source) (lenient : Bool) (qs : List String) :
    ((ofSource source lenient).registerAll qs).Unambiguous ∧
      ((ofSource source lenient).registerAll qs).qualifiers =
        (source.qualifier :: qs).eraseDupsBy Text.sameName := by
  constructor
  · exact ((distinct_ofSource source lenient).registerAll qs).unambiguous
  · rw [qualifiers_registerAll, List.eraseDupsBy, List.eraseDupsBy.loop]
    rfl

end Scope

end FetchQuery
