import FetchQuery.Proofs.Sql.Grammar
import FetchQuery.Proofs.Sql.InStepClauses

/-!
# Conditions are read by precedence

The parser of conditions accepts the grammar of `Derives` and groups as it says. What has been read
is always a phrase with that meaning, and the longest one: no connective follows it
(`sound_reader`). Conversely a phrase is read to its end and no further when what follows does not
continue it (`reaches_of_derives`).

Operands are joined in a loop, from left to right, while a derivation of a chain ends in its last
operand. So the induction on derivations says of a chain that its reader gets to the loop behind it,
with the condition so far in hand and rounds enough for the tokens that are left (`Reaches`).
-/

set_option autoImplicit false

namespace FetchQuery.Sql

/-! ## Readers of the levels -/

/-- Whether a connective continues a condition of a level. -/
def Level.joins : Level → Connective → Bool
  | .chain .or, _ => true
  | .chain .and, .and => true
  | _, _ => false

/-- A token of this kind does not continue a condition of the level. -/
def Level.Stops (l : Level) (k : TokenKind) : Prop :=
  ∀ op, l.joins op = true → k ≠ .keyword op.keyword

theorem Level.stops_chain {op : Connective} {k : TokenKind} :
    (Level.chain op).Stops k ↔ (Level.operand op).Stops k ∧ k ≠ .keyword op.keyword := by
  cases op with
  | or =>
    constructor
    · intro h
      refine ⟨fun op hop => h op rfl, h .or rfl⟩
    · rintro ⟨h, hor⟩ op -
      cases op with
      | or => exact hor
      | and => exact h .and rfl
  | and =>
    constructor
    · intro h
      exact ⟨nofun, h .and rfl⟩
    · rintro ⟨-, hand⟩ op hop
      cases op with
      | or => cases hop
      | and => exact hand

theorem Level.operand_stops (op : Connective) : (Level.operand op).Stops (.keyword op.keyword) := by
  intro other hother
  cases op with
  | or =>
    cases other with
    | or => cases hother
    | and => simp [Connective.keyword]
  | and => cases hother

theorem Level.stops_end (l : Level) : l.Stops .endOfInput :=
  fun _ _ => nofun

/-- The reader of a level, with parentheses inside each other up to a depth. -/
def reader (scope : Scope) (depth : Nat) : Level → Parser Condition
  | .chain .or => conditionWithin scope (depth + 1)
  | .chain .and => chain .and (negations (predicate scope (conditionWithin scope depth)))
  | .negation => negations (predicate scope (conditionWithin scope depth))
  | .predicate => predicate scope (conditionWithin scope depth)

theorem reader_chain (scope : Scope) (depth : Nat) (op : Connective) :
    reader scope depth (.chain op) = chain op (reader scope depth (.operand op)) := by
  cases op <;> rfl

/-! ## Predicates -/

section Predicate

variable {scope : Scope} {inner : Parser Condition} {c c' : Cursor} {e : Condition}

theorem literalFirst_eq_ok :
    literalFirst scope c = .ok e c' ↔ ∃ p value c₁ k op mirrored c₂ column, ValuePhrase p value ∧
      c.Past p c₁ ∧ Sign k op mirrored ∧ c₁.Passes k c₂ ∧
      boundColumn scope c₂ = .ok column c' ∧ e = .test column (.compare mirrored value) := by
  rw [literalFirst, bind_eq_ok]
  constructor
  · rintro ⟨value, c₁, hvalue, h⟩
    obtain ⟨p, hphrase, hpast⟩ := literal_eq_ok.1 hvalue
    rw [currentKind_bind] at h
    generalize hop : comparisonOf? c₁.current.kind = found at h
    cases found with
    | none => cases h
    | some op =>
      obtain ⟨_, c₂, hadvance, h⟩ := bind_eq_ok.1 h
      obtain ⟨column, c₃, hcolumn, hpure⟩ := bind_eq_ok.1 h
      cases hpure
      have hsign := sign_iff.2 ⟨hop, rfl⟩
      exact ⟨p, value, c₁, _, op, op.flip, c₂, column, hphrase, hpast, hsign,
        (advance_eq_ok rfl hsign.ne_endOfInput).1 hadvance, hcolumn, rfl⟩
  · rintro ⟨p, value, c₁, k, op, mirrored, c₂, column, hphrase, hpast, hsign, hpasses, hcolumn, rfl⟩
    obtain ⟨hop, rfl⟩ := sign_iff.1 hsign
    refine ⟨value, c₁, literal_eq_ok.2 ⟨p, hphrase, hpast⟩, ?_⟩
    rw [currentKind_bind, hpasses.kind_eq, hop]
    refine bind_eq_ok.2 ⟨(), c₂, hpasses.advance_eq, ?_⟩
    exact bind_eq_ok.2 ⟨column, c', hcolumn, rfl⟩

theorem predicate_of_group {c₁ c₂ : Cursor} (hopen : c.Passes (.symbol .openParen) c₁)
    (hselect : c₁.current.kind ≠ .keyword .select) (hinner : inner c₁ = .ok e c₂)
    (hclose : c₂.Passes (.symbol .closeParen) c') : predicate scope inner c = .ok e c' := by
  refine (eat_bind_eq_ok (by simp)).2 (.inl ⟨c₁, hopen, noSubquery_eq_ok.2 ⟨hselect, ?_⟩⟩)
  refine bind_eq_ok.2 ⟨e, c₂, hinner, bind_eq_ok.2 ⟨(), c', ?_, rfl⟩⟩
  exact (expect_eq_ok (by simp)).2 hclose

theorem predicate_of_value (h : beginsLiteral c.current.kind = true) :
    predicate scope inner c = literalFirst scope c := by
  have hopen : c.current.kind ≠ .symbol .openParen := by
    intro hat
    rw [hat] at h
    cases h
  rw [predicate, eatSymbol, eat_bind_of_ne hopen]
  change (if beginsLiteral c.current.kind = true then literalFirst scope else _) c = _
  rw [if_pos h]

theorem predicate_of_name {name : String} (h : c.current.kind = .identifier name) :
    predicate scope inner c = (boundColumn scope >>= columnTest) c := by
  rw [predicate, eatSymbol, eat_bind_of_ne (by simp [h])]
  change (currentKind >>= _) c = _
  rw [currentKind_bind, h]
  rfl

/-- A predicate is a condition in parentheses, a literal compared to a column, or a column with a
test. -/
theorem predicate_eq_ok (h : predicate scope inner c = .ok e c') :
    (∃ c₁ c₂, c.Passes (.symbol .openParen) c₁ ∧ inner c₁ = .ok e c₂ ∧
        c₂.Passes (.symbol .closeParen) c') ∨
      literalFirst scope c = .ok e c' ∨ (boundColumn scope >>= columnTest) c = .ok e c' := by
  by_cases hliteral : beginsLiteral c.current.kind = true
  · rw [predicate_of_value hliteral] at h
    exact .inr (.inl h)
  rcases (eat_bind_eq_ok (by simp)).1 h with ⟨c₁, hopen, h⟩ | ⟨-, h⟩
  · obtain ⟨-, h⟩ := noSubquery_eq_ok.1 h
    obtain ⟨_, c₂, hinner, h⟩ := bind_eq_ok.1 h
    obtain ⟨_, c₃, hclose, hpure⟩ := bind_eq_ok.1 h
    cases hpure
    exact .inl ⟨c₁, c₂, hopen, hinner, (expect_eq_ok (by simp)).1 hclose⟩
  · change (if beginsLiteral c.current.kind = true then literalFirst scope else _) c = _ at h
    rw [if_neg hliteral] at h
    generalize c.current.kind = k at h
    cases k with
    | identifier name => exact .inr (.inr h)
    | _ => cases h

end Predicate

/-! ## What is read is derived -/

/-- What a parser reads is a phrase of the level, with the condition as its meaning, and the next
token does not continue it. -/
def Sound (scope : Scope) (l : Level) (p : Parser Condition) : Prop :=
  ∀ ⦃c c' : Cursor⦄ ⦃e : Condition⦄, EndsOnce c.rest → p c = .ok e c' →
    (∃ ks, Derives scope l ks e ∧ c.Past ks c') ∧ l.Stops c'.current.kind

section Sound

variable {scope : Scope} {operand : Parser Condition}

theorem sound_predicate {inner : Parser Condition} (hinner : Sound scope (.chain .or) inner) :
    Sound scope .predicate (predicate scope inner) := by
  intro c c' e hends h
  refine ⟨?_, nofun⟩
  rcases predicate_eq_ok h with ⟨c₁, c₂, hopen, h, hclose⟩ | h | h
  · obtain ⟨⟨ks, hks, hpast⟩, -⟩ := hinner (hopen.ends hends) h
    exact ⟨_, .group hks, c₁, hopen, hpast.trans (Cursor.past_singleton.2 hclose)⟩
  · obtain ⟨p, value, c₁, k, op, mirrored, c₂, column, hvalue, hpast, hsign, hpasses, hcolumn,
      rfl⟩ := literalFirst_eq_ok.1 h
    have hends₂ := hpasses.ends (hpast.ends hends)
    obtain ⟨q, hq, hpast', -⟩ := (boundColumn_eq_ok hends₂).1 hcolumn
    exact ⟨_, .valueFirst hvalue hsign hq, hpast.trans ⟨c₂, hpasses, hpast'⟩⟩
  · obtain ⟨column, c₁, hcolumn, htest⟩ := bind_eq_ok.1 h
    obtain ⟨p, hp, hpast, -⟩ := (boundColumn_eq_ok hends).1 hcolumn
    obtain ⟨q, hq, hpast'⟩ := (columnTest_eq_ok (hpast.ends hends)).1 htest
    exact ⟨_, .columnFirst hp hq, hpast.trans hpast'⟩

theorem sound_negation (h : Sound scope .predicate operand) (n : Nat) :
    Sound scope .negation (negation operand n) := by
  have hsingle : Sound scope .negation operand := by
    intro c c' e hends hread
    obtain ⟨⟨ks, hks, hpast⟩, -⟩ := h hends hread
    exact ⟨⟨ks, .single hks, hpast⟩, nofun⟩
  induction n with
  | zero => exact hsingle
  | succ n ih =>
    intro c c' e hends hread
    rcases (eat_bind_eq_ok (by simp)).1 hread with ⟨c₁, hnot, hread⟩ | ⟨-, hread⟩
    · obtain ⟨inner, c₂, hinner, hpure⟩ := bind_eq_ok.1 hread
      cases hpure
      obtain ⟨⟨ks, hks, hpast⟩, hstops⟩ := ih (hnot.ends hends) hinner
      exact ⟨⟨_, .not hks, c₁, hnot, hpast⟩, hstops⟩
    · exact hsingle hends hread

/-- The loop adds operands at the right end of a chain. It ends where no connective follows: the
bound on its rounds is reached only at the end of the input. -/
theorem sound_operands {op : Connective} (h : Sound scope (.operand op) operand) {n : Nat}
    {left e : Condition} {c c' : Cursor} (hends : EndsOnce c.rest) (hn : c.size ≤ n)
    (hstops : (Level.operand op).Stops c.current.kind)
    (hread : operands op operand n left c = .ok e c') {p : List TokenKind}
    (hleft : Derives scope (.chain op) p left) :
    (∃ q, Derives scope (.chain op) (p ++ q) e ∧ c.Past q c') ∧
      (Level.chain op).Stops c'.current.kind := by
  induction n generalizing left c p with
  | zero =>
    -- no rounds are left, but no tokens either
    have hend := (c.size_eq_zero_iff hends).1 (Nat.le_zero.1 hn)
    cases hread
    rw [hend]
    exact ⟨⟨[], by rwa [List.append_nil], rfl⟩, Level.stops_end _⟩
  | succ n ih =>
    rcases (eat_bind_eq_ok (by simp)).1 hread with ⟨c₁, hop, hread⟩ | ⟨hno, hread⟩
    · obtain ⟨right, c₂, hright, hread⟩ := bind_eq_ok.1 hread
      have hends₁ := hop.ends hends
      obtain ⟨⟨q, hq, hpast⟩, hstops₂⟩ := h hends₁ hright
      have hsize := hop.size_eq hends
      have hsize' := hpast.size_eq hends₁
      obtain ⟨⟨q', hq', hpast'⟩, hdone⟩ :=
        ih (hpast.ends hends₁) (by omega) hstops₂ hread (.join hleft (joiner_iff.2 rfl) hq)
      -- the phrase so far, the connective and the operand are the left end of what follows
      rw [List.append_assoc, List.cons_append] at hq'
      exact ⟨⟨_, hq', c₁, hop, hpast.trans hpast'⟩, hdone⟩
    · cases hread
      exact ⟨⟨[], by rwa [List.append_nil], rfl⟩, Level.stops_chain.2 ⟨hstops, hno⟩⟩

theorem sound_chain {op : Connective} (h : Sound scope (.operand op) operand) :
    Sound scope (.chain op) (chain op operand) := by
  intro c c' e hends hread
  obtain ⟨first, c₁, hfirst, hread⟩ := bind_eq_ok.1 hread
  obtain ⟨⟨p, hp, hpast⟩, hstops⟩ := h hends hfirst
  obtain ⟨n, _, hn, hread⟩ := bind_eq_ok.1 hread
  obtain ⟨rfl, rfl⟩ := EStateM.Result.ok.inj hn
  obtain ⟨⟨q, hq, hpast'⟩, hdone⟩ :=
    sound_operands h (hpast.ends hends) c₁.size_le_length hstops hread (.first hp)
  exact ⟨⟨p ++ q, hq, hpast.trans hpast'⟩, hdone⟩

theorem sound_negations (h : Sound scope .predicate operand) :
    Sound scope .negation (negations operand) := by
  intro c c' e hends hread
  obtain ⟨n, _, hn, hread⟩ := bind_eq_ok.1 hread
  cases hn
  exact sound_negation h _ hends hread

theorem sound_conditionWithin (scope : Scope) (depth : Nat) :
    Sound scope (.chain .or) (conditionWithin scope depth) := by
  induction depth with
  | zero =>
    intro c c' e _ hread
    cases hread
  | succ depth ih => exact sound_chain (sound_chain (sound_negations (sound_predicate ih)))

end Sound

/-! ## What is derived is read -/

/-- A phrase of the level is read from one cursor to the other. Behind a chain the reader is in its
loop, with rounds enough for the tokens ahead. -/
def Reaches (scope : Scope) (depth : Nat) (c : Cursor) (e : Condition) (c' : Cursor) :
    Level → Prop
  | .chain op => (Level.operand op).Stops c'.current.kind → ∃ n, c'.size ≤ n ∧
      reader scope depth (.chain op) c = operands op (reader scope depth (.operand op)) n e c'
  | .negation => ∀ n, c.size ≤ n → negation (reader scope depth .predicate) n c = .ok e c'
  | .predicate => reader scope depth .predicate c = .ok e c'

section Complete

variable {scope : Scope} {c c' : Cursor} {e : Condition}

theorem Reaches.reads {depth : Nat} {l : Level} (h : Reaches scope depth c e c' l)
    (hstops : l.Stops c'.current.kind) : reader scope depth l c = .ok e c' := by
  cases l with
  | chain op =>
    obtain ⟨hoperand, hno⟩ := Level.stops_chain.1 hstops
    obtain ⟨n, -, hread⟩ := h hoperand
    rw [hread, operands_of_ne hno]
  | negation => exact h _ c.size_le_length
  | predicate => exact h

/-- How a phrase begins. -/
theorem Derives.begins {l : Level} {ks : List TokenKind} (h : Derives scope l ks e)
    (hpast : c.Past ks c') :
    c.current.kind ≠ .keyword .select ∧ (l = .predicate → c.current.kind ≠ .keyword .not) := by
  induction h generalizing c' with
  | first h ih => exact ⟨(ih hpast).1, nofun⟩
  | join hleft hjoiner hright ihleft ihright =>
    obtain ⟨_, hpast, -⟩ := Cursor.past_append.1 hpast
    exact ⟨(ihleft hpast).1, nofun⟩
  | not h ih =>
    rw [hpast.kind_eq]
    exact ⟨by simp, nofun⟩
  | single h ih => exact ⟨(ih hpast).1, nofun⟩
  | group h ih =>
    rw [hpast.kind_eq]
    exact ⟨by simp, fun _ => by simp⟩
  | columnFirst hcolumn htest =>
    obtain ⟨_, hpast, -⟩ := Cursor.past_append.1 hpast
    obtain ⟨name, hname⟩ := hcolumn.begins hpast
    rw [hname]
    exact ⟨by simp, fun _ => by simp⟩
  | valueFirst hvalue hsign hcolumn =>
    obtain ⟨_, hpast, -⟩ := Cursor.past_append.1 hpast
    have hbegins := hvalue.begins hpast
    refine ⟨?_, fun _ => ?_⟩
    · intro hat
      rw [hat] at hbegins
      cases hbegins
    · intro hat
      rw [hat] at hbegins
      cases hbegins

theorem chain_of_ok {op : Connective} {operand : Parser Condition} (h : operand c = .ok e c') :
    chain op operand c = operands op operand c'.ahead.length e c' := by
  rw [chain, bind_of_ok h]
  rfl

theorem operands_of_ok {op : Connective} {operand : Parser Condition} {left right : Condition}
    {c₁ : Cursor} (hop : c.Passes (.keyword op.keyword) c₁) (hright : operand c₁ = .ok right c')
    (n : Nat) :
    operands op operand (n + 1) left c = operands op operand n (.binary op left right) c' := by
  rw [operands, eatKeyword, eat_bind_of_eq hop.kind_eq, bind_of_ok hop.advance_eq, if_pos rfl,
    bind_of_ok hright]

theorem reaches_of_derives {l : Level} {ks : List TokenKind} (h : Derives scope l ks e)
    {depth : Nat} (hends : EndsOnce c.rest) (hdepth : c.size ≤ depth) (hpast : c.Past ks c')
    (hdot : c'.current.kind ≠ .symbol .dot) : Reaches scope depth c e c' l := by
  induction h generalizing c c' depth with
  | @first op p e h ih =>
    intro hstops
    have hfirst := (ih hends hdepth hpast hdot).reads hstops
    exact ⟨c'.ahead.length, c'.size_le_length, by rw [reader_chain, chain_of_ok hfirst]⟩
  | @join op k p q left right hleft hjoiner hright ihleft ihright =>
    intro hstops
    obtain rfl := joiner_iff.1 hjoiner
    obtain ⟨c₁, hpast, c₂, hop, hpast'⟩ := Cursor.past_append.1 hpast
    have hends₁ := hpast.ends hends
    have hends₂ := hop.ends hends₁
    have hsize := hpast.size_eq hends
    have hsize₁ := hop.size_eq hends₁
    have hsize₂ := hpast'.size_eq hends₂
    -- the reader is in the loop behind the operands on the left, and one more round follows
    obtain ⟨n, hn, hread⟩ := ihleft hends hdepth hpast (by simp [hop.kind_eq])
      (hop.kind_eq ▸ Level.operand_stops op)
    obtain ⟨n, rfl⟩ := Nat.exists_eq_add_one_of_ne_zero (by omega : n ≠ 0)
    have hright : reader scope depth (.operand op) c₂ = .ok right c' :=
      (ihright hends₂ (by omega) hpast' hdot).reads hstops
    exact ⟨n, by omega, by rw [hread, operands_of_ok hop hright]⟩
  | @not p e h ih =>
    obtain ⟨c₁, hnot, hpast⟩ := hpast
    have hsize := hnot.size_eq hends
    intro n hn
    obtain ⟨n, rfl⟩ := Nat.exists_eq_add_one_of_ne_zero (by omega : n ≠ 0)
    have hinner : negation (reader scope depth .predicate) n c₁ = .ok e c' :=
      ih (hnot.ends hends) (by omega) hpast hdot n (by omega)
    exact (eat_bind_eq_ok (by simp)).2 (.inl ⟨c₁, hnot, bind_eq_ok.2 ⟨_, c', hinner, rfl⟩⟩)
  | single h ih =>
    -- a predicate does not begin with `NOT`, so the loop is left at once
    intro n _
    rw [negation_of_ne ((h.begins hpast).2 rfl)]
    exact ih hends hdepth hpast hdot
  | @group p e h ih =>
    obtain ⟨c₁, hopen, hpast⟩ := hpast
    obtain ⟨c₂, hpast, hclose⟩ := Cursor.past_append.1 hpast
    have hclose := Cursor.past_singleton.1 hclose
    have hsize := hopen.size_eq hends
    -- the parenthesis takes one of the tokens that bound the depth
    obtain ⟨depth, rfl⟩ := Nat.exists_eq_add_one_of_ne_zero (by omega : depth ≠ 0)
    have hinner : conditionWithin scope (depth + 1) c₁ = .ok e c₂ :=
      (ih (hopen.ends hends) (by omega) hpast (by simp [hclose.kind_eq])).reads
        fun op _ => by simp [hclose.kind_eq]
    exact predicate_of_group hopen (h.begins hpast).1 hinner hclose
  | columnFirst hcolumn htest =>
    obtain ⟨c₁, hpast, hpast'⟩ := Cursor.past_append.1 hpast
    obtain ⟨name, hname⟩ := hcolumn.begins hpast
    -- what follows the column is not a point, so the column ends where its phrase does
    have hbound := (boundColumn_eq_ok hends).2 ⟨_, hcolumn, hpast, fun _ => htest.begins hpast'⟩
    have htest := (columnTest_eq_ok (hpast.ends hends)).2 ⟨_, htest, hpast'⟩
    exact (predicate_of_name hname).trans (bind_eq_ok.2 ⟨_, c₁, hbound, htest⟩)
  | valueFirst hvalue hsign hcolumn =>
    obtain ⟨c₁, hpast, c₂, hpasses, hpast'⟩ := Cursor.past_append.1 hpast
    have hends₂ := hpasses.ends (hpast.ends hends)
    have hbound := (boundColumn_eq_ok hends₂).2 ⟨_, hcolumn, hpast', fun _ => hdot⟩
    exact (predicate_of_value (hvalue.begins hpast)).trans (literalFirst_eq_ok.2
      ⟨_, _, c₁, _, _, _, c₂, _, hvalue, hpast, hsign, hpasses, hbound, rfl⟩)

end Complete

/-- The parser of conditions accepts the grammar and groups as it says. A condition that has been
read is derived by the tokens that were passed, with every column bound in the scope, and neither
`AND` nor `OR` follows. A derived condition is read, and exactly its tokens are passed, unless a
connective or a point follows them. -/
theorem condition_accepts_grammar {scope : Scope} {c : Cursor} (hends : EndsOnce c.rest)
    (hplain : ∀ t ∈ c.rest, t.kind.isPlain = true) :
    (∀ e c', condition scope c = .ok e c' →
      ∃ p, c.rest = p ++ c'.rest ∧ Derives scope (.chain .or) (p.map Token.kind) e ∧
        c'.current.kind ≠ .keyword .and ∧ c'.current.kind ≠ .keyword .or) ∧
    ∀ p next more e, c.rest = p ++ next :: more →
      Derives scope (.chain .or) (p.map Token.kind) e →
      next.kind ∉ [.symbol .dot, .keyword .and, .keyword .or] →
      ∃ c', condition scope c = .ok e c' ∧ c'.rest = next :: more := by
  constructor
  · intro e c' hread
    obtain ⟨n, _, hn, hread⟩ := bind_eq_ok.1 hread
    cases hn
    obtain ⟨⟨ks, hks, hpast⟩, hstops⟩ := sound_conditionWithin scope _ hends hread
    obtain ⟨-, p, hrest, rfl⟩ := hpast.exists_rest_eq hends
    exact ⟨p, hrest, hks, hstops .and rfl, hstops .or rfl⟩
  · intro p next more e hrest hderives hnext
    obtain ⟨c', hpast, hrest'⟩ := Cursor.exists_past hends hplain hrest
    obtain rfl : c'.current = next := (List.cons.inj hrest').1
    simp only [List.mem_cons, List.not_mem_nil, or_false, not_or] at hnext
    obtain ⟨hdot, hand, hor⟩ := hnext
    -- the tokens ahead bound the depth of parentheses
    have hreaches := reaches_of_derives hderives hends c.size_le_length hpast hdot
    refine ⟨c', hreaches.reads ?_, hrest'⟩
    intro op _
    cases op with
    | and => exact hand
    | or => exact hor

/-- A condition with every level of precedence and every sign, with columns on either side, and the
beginning of the next clause. -/
def mixedText : String :=
  "'M' < name and 'Z' >= a or not city like 'A%' and (X.b is null or b <> 'q' and c <= -1.125) " ++
    "and d > 'k' or false = e group"

/-- The cursor on the first token of the condition. -/
def mixedCursor : Cursor :=
  ⟨(tokenize mixedText).headD ⟨.endOfInput, "", Position.start⟩, (tokenize mixedText).tail, []⟩

def mixedScope : Scope :=
  ⟨⟨"account", none⟩, ["x"], true⟩

def mixedBound : Decimal :=
  ⟨true, 1125, 3, by decide, by decide, by decide⟩

def mixedCondition : Condition :=
  .binary .or
    (.binary .or
      (.binary .and (.test ⟨none, "name"⟩ (.compare .gt (.text "M")))
        (.test ⟨none, "a"⟩ (.compare .le (.text "Z"))))
      (.binary .and
        (.binary .and (.not (.test ⟨none, "city"⟩ (.like "A%")))
          (.binary .or (.test ⟨some "x", "b"⟩ (.null true))
            (.binary .and (.test ⟨none, "b"⟩ (.compare .ne (.text "q")))
              (.test ⟨none, "c"⟩ (.compare .le (.number mixedBound))))))
        (.test ⟨none, "d"⟩ (.compare .gt (.text "k")))))
    (.test ⟨none, "e"⟩ (.compare .eq (.truth false)))

/-- The tokens of the condition and the one behind it. -/
theorem mixedCursor_rest :
    mixedCursor.rest = spoken (tokenize mixedText) ∧
      (∀ t ∈ mixedCursor.rest, t.kind.isPlain = true) ∧
      mixedCursor.rest.drop 37 =
        ⟨.keyword .group, "group", ⟨1, 118, 117⟩⟩ :: mixedCursor.rest.drop 38 ∧
      (mixedCursor.rest.take 37).map Token.kind =
        [.string "M", .symbol .less, .identifier "name", .keyword .and, .string "Z",
          .symbol .greaterEqual, .identifier "a", .keyword .or, .keyword .not, .identifier "city",
          .keyword .like, .string "A%", .keyword .and, .symbol .openParen, .identifier "X",
          .symbol .dot, .identifier "b", .keyword .is, .keyword .null, .keyword .or,
          .identifier "b", .symbol .notEqual, .string "q", .keyword .and, .identifier "c",
          .symbol .lessEqual, .symbol .minus, .number "1.125", .symbol .closeParen, .keyword .and,
          .identifier "d", .symbol .greater, .string "k", .keyword .or, .keyword .false,
          .symbol .equal, .identifier "e"] := by
  decide +kernel

/-- The derivation groups as the precedence of the connectives says. -/
theorem derives_mixedCondition :
    Derives mixedScope (.chain .or) ((mixedCursor.rest.take 37).map Token.kind) mixedCondition := by
  have hroot (name : String) : ColumnPhrase mixedScope [.identifier name] ⟨none, name⟩ :=
    .bound ⟨none, name⟩ rfl
  have hjoined : ColumnPhrase mixedScope [.identifier "X", .symbol .dot, .identifier "b"]
      ⟨some "x", "b"⟩ := by
    have hbind : mixedScope.bind ⟨some "X", "b"⟩ = .ok (⟨some "x", "b"⟩, .join 0) := by
      decide +kernel
    exact .bound ⟨some "X", "b"⟩ hbind
  have hnumber : ValuePhrase [.symbol .minus, .number "1.125"] (.number mixedBound) :=
    .negative (by decide +kernel)
  have hfirst : Derives mixedScope (.chain .and) _ _ :=
    .join (.first (.single (.valueFirst (.text "M") .less (hroot "name")))) .and
      (.single (.valueFirst (.text "Z") .greaterEqual (hroot "a")))
  have hgroup : Derives mixedScope (.chain .or) _ _ :=
    .join (.first (.first (.single (.columnFirst hjoined .null)))) .or
      (.join (.first (.single (.columnFirst (hroot "b") (.compare .notEqual (.text "q"))))) .and
        (.single (.columnFirst (hroot "c") (.compare .lessEqual hnumber))))
  have hsecond : Derives mixedScope (.chain .and) _ _ :=
    .join (.join (.first (.not (.single (.columnFirst (hroot "city") (.word (.like "A%")))))) .and
      (.single (.group hgroup))) .and
      (.single (.columnFirst (hroot "d") (.compare .greater (.text "k"))))
  have hthird : Derives mixedScope (.chain .and) _ _ :=
    .first (.single (.valueFirst .no .equal (hroot "e")))
  have hall : Derives mixedScope (.chain .or) _ mixedCondition :=
    .join (.join (.first hfirst) .or hsecond) .or hthird
  rw [mixedCursor_rest.2.2.2]
  exact hall

theorem condition_accepts_grammar_mixedText :
    (EndsOnce mixedCursor.rest ∧ ∀ t ∈ mixedCursor.rest, t.kind.isPlain = true) ∧
      ∃ c', condition mixedScope mixedCursor = .ok mixedCondition c' ∧
        c'.rest = mixedCursor.rest.drop 37 := by
  obtain ⟨hspoken, hplain, hsplit, -⟩ := mixedCursor_rest
  have hends : EndsOnce mixedCursor.rest := by
    rw [hspoken]
    exact endsOnce_spoken (endsOnce_scanFrom 0 Position.start mixedText.toList)
  have hrest := (List.take_append_drop 37 mixedCursor.rest).symm
  rw [hsplit] at hrest ⊢
  exact ⟨⟨hends, hplain⟩, (condition_accepts_grammar hends hplain).2 _ _ _ _ hrest
    derives_mixedCondition (by simp)⟩

end FetchQuery.Sql
