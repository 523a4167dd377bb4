import FetchQuery.Proofs.Sql.InStep

/-!
# Tokens that a reading passes

`Past` says that a cursor stands behind tokens of given kinds from another one on. A parser that
succeeds has passed some tokens and has a result that goes with their kinds, and nothing but their
kinds and that of the next token decides it. So the steps of a parser are described both ways, by
what they pass exactly when they succeed: `expect_eq_ok` for a single token, `eat_bind_eq_ok` for a
token that decides how to go on, `commaList_eq_ok` for a list.

A cursor in front of tokens without faults can pass them (`exists_past`), and what it passes are the
first of the tokens it had to read (`Past.exists_rest_eq`).
-/

set_option autoImplicit false

namespace FetchQuery.Sql

namespace Cursor

/-- The second cursor has moved from a token of the given kind to the next one. -/
structure Passes (c : Cursor) (k : TokenKind) (c' : Cursor) : Prop where
  kind_eq : c.current.kind = k
  ne_end : k ≠ .endOfInput
  advance_eq : advance c = .ok () c'

/-- The second cursor stands behind tokens of the given kinds from the first one on. -/
def Past : Cursor → List TokenKind → Cursor → Prop
  | c, [], c' => c' = c
  | c, k :: ks, c' => ∃ c₁, c.Passes k c₁ ∧ Past c₁ ks c'

variable {c c' : Cursor} {k : TokenKind} {ks : List TokenKind}

@[simp] theorem past_nil : c.Past [] c' ↔ c' = c := Iff.rfl

@[simp] theorem past_singleton : c.Past [k] c' ↔ c.Passes k c' := by
  constructor
  · rintro ⟨c₁, hpasses, rfl⟩
    exact hpasses
  · intro hpasses
    exact ⟨c', hpasses, rfl⟩

theorem past_append {ls : List TokenKind} :
    c.Past (ks ++ ls) c' ↔ ∃ c₁, c.Past ks c₁ ∧ c₁.Past ls c' := by
  induction ks generalizing c with
  | nil => simp
  | cons k ks ih =>
    constructor
    · rintro ⟨c₁, hpasses, hpast⟩
      obtain ⟨c₂, hks, hls⟩ := ih.1 hpast
      exact ⟨c₂, ⟨c₁, hpasses, hks⟩, hls⟩
    · rintro ⟨c₂, ⟨c₁, hpasses, hks⟩, hls⟩
      exact ⟨c₁, hpasses, ih.2 ⟨c₂, hks, hls⟩⟩

theorem Past.trans {c₁ : Cursor} {ls : List TokenKind} (h : c.Past ks c₁) (h' : c₁.Past ls c') :
    c.Past (ks ++ ls) c' :=
  past_append.2 ⟨c₁, h, h'⟩

theorem Past.kind_eq (h : c.Past (k :: ks) c') : c.current.kind = k := by
  obtain ⟨_, hpasses, -⟩ := h
  exact hpasses.kind_eq

/-! ## Tokens behind the current one -/

theorem exists_spoken_ahead (hends : EndsOnce c.rest) (hkind : c.current.kind ≠ .endOfInput) :
    ∃ t more, spoken c.ahead = t :: more :=
  List.exists_cons_of_length_pos (Nat.pos_of_ne_zero (mt (c.size_eq_zero_iff hends).1 hkind))

/-- Where moving on arrives does not depend on the token that is left. -/
theorem moveOn_eq_ok_congr {tokens : List Token} (h : spoken tokens ≠ []) (current current' : Token)
    (comments : List String) :
    moveOn current comments tokens = .ok () c' ↔ moveOn current' comments tokens = .ok () c' := by
  -- the token that is left is kept only where nothing but comments follows
  induction tokens generalizing comments with
  | nil => exact absurd rfl h
  | cons u tokens ih =>
    cases hkind : u.kind with
    | comment body =>
      simp only [moveOn, hkind]
      refine ih ?_ (comments ++ [body])
      rwa [spoken, List.filter_cons_of_neg (by simp [hkind, TokenKind.isComment])] at h
    | _ => simp only [moveOn, hkind, reduceCtorEq]

/-- A cursor has moved on to the first of the tokens behind its own. -/
theorem Passes.rest_eq (hends : EndsOnce c.rest) (h : c.Passes k c') :
    c.rest = c.current :: c'.rest := by
  obtain ⟨t, more, hspoken⟩ := exists_spoken_ahead hends (h.kind_eq ▸ h.ne_end)
  have hmove : moveOn c.current c.comments c.ahead = .ok () c' := h.advance_eq
  rcases moveOn_of_spoken c.current hspoken c.comments with
    ⟨cause, rest, comments, -, herror⟩ | ⟨-, rest, comments, hrest, hok⟩
  · rw [hmove] at herror
    cases herror
  · obtain rfl := (EStateM.Result.ok.inj (hmove.symm.trans hok)).2
    rw [Cursor.rest, Cursor.rest, hspoken, hrest]

theorem Passes.ends (hends : EndsOnce c.rest) (h : c.Passes k c') : EndsOnce c'.rest := by
  have hdrop : c.rest.drop 1 = c'.rest := by rw [h.rest_eq hends, List.drop_one, List.tail_cons]
  rw [← hdrop]
  exact endsOnce_drop hends (by rw [hdrop, Cursor.rest]; simp)

/-- What has been passed are the first tokens that were to be read. -/
theorem Past.exists_rest_eq (hends : EndsOnce c.rest) (h : c.Past ks c') :
    EndsOnce c'.rest ∧ ∃ p, c.rest = p ++ c'.rest ∧ p.map Token.kind = ks := by
  induction ks generalizing c with
  | nil =>
    obtain rfl : c' = c := h
    exact ⟨hends, [], rfl, rfl⟩
  | cons k ks ih =>
    obtain ⟨c₁, hpasses, hpast⟩ := h
    obtain ⟨hends', p, hrest, hkinds⟩ := ih (hpasses.ends hends) hpast
    refine ⟨hends', c.current :: p, ?_, ?_⟩
    · rw [hpasses.rest_eq hends, hrest, List.cons_append]
    · rw [List.map_cons, hpasses.kind_eq, hkinds]

theorem Past.ends (hends : EndsOnce c.rest) (h : c.Past ks c') : EndsOnce c'.rest :=
  (h.exists_rest_eq hends).1

theorem Past.size_eq (hends : EndsOnce c.rest) (h : c.Past ks c') :
    c.size = ks.length + c'.size := by
  obtain ⟨-, p, hrest, rfl⟩ := h.exists_rest_eq hends
  have hlength := congrArg List.length hrest
  simp only [Cursor.rest, List.length_cons, List.length_append] at hlength
  rw [Cursor.size, Cursor.size, List.length_map]
  omega

/-- The kinds of the tokens still to be read. -/
def kinds (c : Cursor) : List TokenKind :=
  c.rest.map Token.kind

theorem Past.kinds_eq (hends : EndsOnce c.rest) (h : c.Past ks c') : c.kinds = ks ++ c'.kinds := by
  obtain ⟨-, p, hrest, rfl⟩ := h.exists_rest_eq hends
  rw [kinds, hrest, List.map_append, kinds]

theorem Passes.kinds_eq (hends : EndsOnce c.rest) (h : c.Passes k c') : c.kinds = k :: c'.kinds :=
  (past_singleton.2 h).kinds_eq hends

theorem Passes.size_eq (hends : EndsOnce c.rest) (h : c.Passes k c') : c.size = c'.size + 1 := by
  rw [(past_singleton.2 h).size_eq hends, List.length_singleton, Nat.add_comm]

/-- Tokens without faults can be passed. -/
theorem exists_past (hends : EndsOnce c.rest) (hplain : ∀ t ∈ c.rest, t.kind.isPlain = true)
    {p more : List Token} {next : Token} (h : c.rest = p ++ next :: more) :
    ∃ c', c.Past (p.map Token.kind) c' ∧ c'.rest = next :: more := by
  induction p generalizing c with
  | nil => exact ⟨c, rfl, h⟩
  | cons t p ih =>
    obtain ⟨rfl, hahead⟩ := List.cons.inj h
    obtain ⟨u, rest, hspoken⟩ : ∃ u rest, spoken c.ahead = u :: rest :=
      List.exists_cons_of_ne_nil (by rw [hahead]; simp)
    -- a token that another one follows is not the end of the input
    have hkind : c.current.kind ≠ .endOfInput := by
      rw [Ne, ← c.size_eq_zero_iff hends, Cursor.size, hspoken]
      simp
    rcases moveOn_of_spoken c.current hspoken c.comments with
      ⟨cause, -, -, hfault, -⟩ | ⟨-, behind, comments, hbehind, hmove⟩
    · -- a fault would be among the tokens still to be read
      have hu := hplain u (by rw [Cursor.rest, hspoken]; simp)
      rw [hfault] at hu
      cases hu
    · have hpasses : c.Passes c.current.kind ⟨u, behind, comments⟩ := ⟨rfl, hkind, hmove⟩
      have hrest := hpasses.rest_eq hends
      obtain ⟨c', hpast, hc'⟩ := ih (hpasses.ends hends)
        (fun t ht => hplain t (by rw [hrest]; exact List.mem_cons_of_mem _ ht))
        ((List.cons.inj (hrest.symm.trans h)).2)
      exact ⟨c', ⟨_, hpasses, hpast⟩, hc'⟩

end Cursor

/-! ## Single tokens -/

theorem bind_of_ok {α β : Type} {p : Parser α} {f : α → Parser β} {c c' : Cursor} {a : α}
    (h : p c = .ok a c') : (p >>= f) c = f a c' := by
  change EStateM.bind p f c = _
  rw [EStateM.bind, h]

section Tokens

variable {c c' : Cursor} {k : TokenKind} {u : Unit}

theorem advance_eq_ok (hkind : c.current.kind = k) (hne : k ≠ .endOfInput) :
    advance c = .ok u c' ↔ c.Passes k c' :=
  ⟨fun h => ⟨hkind, hne, h⟩, fun h => h.advance_eq⟩

/-- Emptying the token that is left makes no difference where a token follows. -/
theorem consume_eq_ok (hends : EndsOnce c.rest) (hkind : c.current.kind = k)
    (hne : k ≠ .endOfInput) : consume c = .ok u c' ↔ c.Passes k c' := by
  obtain ⟨t, more, hspoken⟩ := Cursor.exists_spoken_ahead hends (hkind ▸ hne)
  have hcongr : consume c = .ok u c' ↔ advance c = .ok u c' :=
    Cursor.moveOn_eq_ok_congr (by rw [hspoken]; simp) _ _ c.comments
  exact hcongr.trans (advance_eq_ok hkind hne)

theorem expect_eq_ok (hne : k ≠ .endOfInput) {what : Expectation} :
    expect k what c = .ok u c' ↔ c.Passes k c' := by
  change (if (c.current.kind == k) = true then advance else unexpected what) c = _ ↔ _
  by_cases hkind : c.current.kind = k
  · rw [if_pos (beq_iff_eq.2 hkind), advance_eq_ok hkind hne]
  · rw [if_neg (by simpa using hkind)]
    exact iff_of_false nofun fun h => hkind h.kind_eq

theorem eat_bind_eq_ok {β : Type} (hne : k ≠ .endOfInput) {f : Bool → Parser β} {b : β} :
    (eat k >>= f) c = .ok b c' ↔
      (∃ c₁, c.Passes k c₁ ∧ f true c₁ = .ok b c') ∨
        c.current.kind ≠ k ∧ f false c = .ok b c' := by
  by_cases hkind : c.current.kind = k
  · rw [eat_bind_of_eq hkind, bind_eq_ok]
    constructor
    · rintro ⟨_, c₁, hadvance, hf⟩
      exact .inl ⟨c₁, (advance_eq_ok hkind hne).1 hadvance, hf⟩
    · rintro (⟨c₁, hpasses, hf⟩ | ⟨hno, -⟩)
      · exact ⟨(), c₁, hpasses.advance_eq, hf⟩
      · exact absurd hkind hno
  · rw [eat_bind_of_ne hkind]
    constructor
    · exact fun hf => .inr ⟨hkind, hf⟩
    · rintro (⟨c₁, hpasses, -⟩ | ⟨-, hf⟩)
      · exact absurd hpasses.kind_eq hkind
      · exact hf

theorem identifier_eq_ok (hends : EndsOnce c.rest) {what : Expectation} {name : String} :
    identifier what c = .ok name c' ↔ c.Passes (.identifier name) c' := by
  constructor
  · intro h
    obtain ⟨found, _, hfound, hread⟩ := bind_eq_ok.1 h
    obtain ⟨hkind, rfl⟩ := EStateM.Result.ok.inj hfound
    cases found with
    | identifier found =>
      obtain ⟨_, c₁, hconsume, hpure⟩ := bind_eq_ok.1 hread
      cases hpure
      exact (consume_eq_ok hends hkind (by simp)).1 hconsume
    | _ => cases hread
  · intro h
    refine bind_eq_ok.2 ⟨_, c, rfl, ?_⟩
    rw [h.kind_eq]
    exact bind_eq_ok.2 ⟨(), c', (consume_eq_ok hends h.kind_eq h.ne_end).2 h, rfl⟩

end Tokens

/-! ## Lists -/

/-- Phrases separated by commas, with the list of their meanings. -/
inductive Separated {α : Type} (P : List TokenKind → α → Prop) : List TokenKind → List α → Prop
  | last {ks : List TokenKind} {a : α} (h : P ks a) : Separated P ks [a]
  | more {ks ls : List TokenKind} {a : α} {as : List α} (h : P ks a) (h' : Separated P ls as) :
    Separated P (ks ++ .symbol .comma :: ls) (a :: as)

/-- What the further items of a list have passed: nothing, or a comma and the rest of the list. -/
def Further {α : Type} (P : List TokenKind → α → Prop) (c : Cursor) (as : List α) (c' : Cursor) :
    Prop :=
  as = [] ∧ c' = c ∨ ∃ ks, Separated P ks as ∧ c.Past (.symbol .comma :: ks) c'

/-- A list is a first item and further ones. -/
theorem exists_separated_iff {α : Type} {P : List TokenKind → α → Prop} {c c' : Cursor}
    {all : List α} :
    (∃ ks, Separated P ks all ∧ c.Past ks c') ↔
      ∃ a as c₁, all = a :: as ∧ (∃ ks, P ks a ∧ c.Past ks c₁) ∧ Further P c₁ as c' := by
  constructor
  · rintro ⟨ks, hks, hpast⟩
    cases hks with
    | @last _ a ha => exact ⟨a, [], c', rfl, ⟨ks, ha, hpast⟩, .inl ⟨rfl, rfl⟩⟩
    | @more ks ls a as ha has =>
      obtain ⟨c₁, hpast, hpast'⟩ := Cursor.past_append.1 hpast
      exact ⟨a, as, c₁, rfl, ⟨ks, ha, hpast⟩, .inr ⟨ls, has, hpast'⟩⟩
  · rintro ⟨a, as, c₁, rfl, ⟨ks, ha, hpast⟩, ⟨rfl, rfl⟩ | ⟨ls, has, hpast'⟩⟩
    · exact ⟨ks, .last ha, hpast⟩
    · exact ⟨ks ++ .symbol .comma :: ls, .more ha has, hpast.trans hpast'⟩

section Lists

variable {α : Type} {item : Parser α} {P : List TokenKind → α → Prop}
  (hitem : ∀ {c c' : Cursor} {a : α}, EndsOnce c.rest →
    (item c = .ok a c' ↔ ∃ ks, P ks a ∧ c.Past ks c'))

include hitem

/-- The bound on further items is not reached, since each of them has a comma in front of it. -/
theorem commaItems_eq_ok {c c' : Cursor} (hends : EndsOnce c.rest) {n : Nat} (hn : c.size ≤ n)
    {as : List α} :
    commaItems item n c = .ok as c' ↔ c'.current.kind ≠ .symbol .comma ∧ Further P c as c' := by
  induction n generalizing c as with
  | zero =>
    -- no tokens are ahead, so the cursor is at the end and at no comma
    have hend := (c.size_eq_zero_iff hends).1 (Nat.le_zero.1 hn)
    constructor
    · intro h
      cases h
      exact ⟨by simp [hend], .inl ⟨rfl, rfl⟩⟩
    · rintro ⟨-, ⟨rfl, rfl⟩ | ⟨ks, -, hpast⟩⟩
      · rfl
      · rw [hpast.kind_eq] at hend
        cases hend
  | succ n ih =>
    rw [commaItems, eatSymbol, eat_bind_eq_ok (by simp)]
    -- behind a comma and an item there are fewer tokens than before
    have hfewer : ∀ {c₁ c₂ ks}, c.Passes (.symbol .comma) c₁ → c₁.Past ks c₂ →
        EndsOnce c₂.rest ∧ c₂.size ≤ n := by
      intro c₁ c₂ ks hcomma hpast
      have hends₁ := hcomma.ends hends
      have hsize := hcomma.size_eq hends
      have hsize' := hpast.size_eq hends₁
      exact ⟨hpast.ends hends₁, by omega⟩
    constructor
    · rintro (⟨c₁, hcomma, h⟩ | ⟨hno, h⟩)
      · obtain ⟨a, c₂, ha, hrest⟩ := bind_eq_ok.1 h
        obtain ⟨rest, c₃, hitems, hpure⟩ := bind_eq_ok.1 hrest
        cases hpure
        obtain ⟨ks, hks, hpast⟩ := (hitem (hcomma.ends hends)).1 ha
        obtain ⟨hends₂, hn₂⟩ := hfewer hcomma hpast
        obtain ⟨hnext, hfurther⟩ := (ih hends₂ hn₂).1 hitems
        obtain ⟨ls, hls, hpast'⟩ :=
          exists_separated_iff.2 ⟨a, rest, c₂, rfl, ⟨ks, hks, hpast⟩, hfurther⟩
        exact ⟨hnext, .inr ⟨ls, hls, c₁, hcomma, hpast'⟩⟩
      · cases h
        exact ⟨hno, .inl ⟨rfl, rfl⟩⟩
    · rintro ⟨hnext, ⟨rfl, rfl⟩ | ⟨ls, hls, c₁, hcomma, hpast⟩⟩
      · exact .inr ⟨hnext, rfl⟩
      · obtain ⟨a, as, c₂, rfl, hfirst, hfurther⟩ := exists_separated_iff.1 ⟨ls, hls, hpast⟩
        have ha := (hitem (hcomma.ends hends)).2 hfirst
        obtain ⟨ks, -, hpast⟩ := hfirst
        obtain ⟨hends₂, hn₂⟩ := hfewer hcomma hpast
        have hitems := (ih hends₂ hn₂).2 ⟨hnext, hfurther⟩
        exact .inl ⟨c₁, hcomma, bind_eq_ok.2 ⟨a, c₂, ha, bind_eq_ok.2 ⟨as, c', hitems, rfl⟩⟩⟩

theorem commaList_eq_ok {c c' : Cursor} (hends : EndsOnce c.rest) {as : List α} :
    commaList item c = .ok as c' ↔ c'.current.kind ≠ .symbol .comma ∧
      ∃ ks, Separated P ks as ∧ c.Past ks c' := by
  rw [exists_separated_iff]
  constructor
  · intro h
    obtain ⟨a, c₁, ha, hrest⟩ := bind_eq_ok.1 h
    obtain ⟨n, _, hn, hrest⟩ := bind_eq_ok.1 hrest
    obtain ⟨rfl, rfl⟩ := EStateM.Result.ok.inj hn
    obtain ⟨rest, c₂, hitems, hpure⟩ := bind_eq_ok.1 hrest
    cases hpure
    obtain ⟨ks, hks, hpast⟩ := (hitem hends).1 ha
    obtain ⟨hnext, hfurther⟩ :=
      (commaItems_eq_ok hitem (hpast.ends hends) c₁.size_le_length).1 hitems
    exact ⟨hnext, a, rest, c₁, rfl, ⟨ks, hks, hpast⟩, hfurther⟩
  · rintro ⟨hnext, a, rest, c₁, rfl, hfirst, hfurther⟩
    have ha := (hitem hends).2 hfirst
    obtain ⟨ks, -, hpast⟩ := hfirst
    have hitems := (commaItems_eq_ok hitem (hpast.ends hends) c₁.size_le_length).2
      ⟨hnext, hfurther⟩
    exact bind_eq_ok.2 ⟨a, c₁, ha, bind_eq_ok.2 ⟨_, c₁, rfl, bind_eq_ok.2 ⟨rest, c', hitems, rfl⟩⟩⟩

end Lists

end FetchQuery.Sql
