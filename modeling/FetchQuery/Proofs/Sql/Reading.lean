import FetchQuery.Sql.Cursor
import FetchQuery.Proofs.Sql.Phrases
import Mathlib.Data.List.Forall2

/-!
# Reading steps on known lexemes

`Reads good p ls rest Q` says what a reading step does in front of given lexemes: it passes
exactly `ls`, it stops in front of `rest`, and its result satisfies `Q`; it may fail only where
`good` does not hold. Such facts are put together along the sequence of steps (`Reads.bind`), so
a parser built of steps is followed by following its steps, once for what it accepts and for
what it refuses.

The lexemes in front of a cursor hold no comments, and no faults where `good` holds. So a step that
passes a token arrives at the next one, or it fails there for the reason that `good` does not hold.
-/

set_option autoImplicit false

namespace FetchQuery

/-- Whether a token is met by a parser: comments and faults are not. -/
def TokenKind.isPlain : TokenKind → Bool
  | .comment _ => false
  | .fault _ => false
  | _ => true

/-- Whether a token is a comment. -/
def TokenKind.isComment : TokenKind → Bool
  | .comment _ => true
  | _ => false

namespace Sql

/-- A lexeme that is no comment, and no fault where `good` holds. -/
def Clean (good : Prop) (l : Lexeme) : Prop :=
  l.kind.isComment = false ∧ (good → l.kind.isPlain = true)

/-- The lexemes in front of a cursor. The one it stands on is neither a comment nor a fault. -/
structure Sees (good : Prop) (c : Cursor) (ls : List Lexeme) : Prop where
  kinds_eq : c.current.kind :: c.ahead.map Token.kind = ls.map Lexeme.kind
  current_plain : c.current.kind.isPlain = true
  clean : ∀ l ∈ ls, Clean good l

/-- A step that passes the lexemes `ls` in front of `rest` with a result in `Q`, or fails where
`good` does not hold. -/
def Reads {α : Type} (good : Prop) (p : Parser α) (ls rest : List Lexeme) (Q : α → Prop) : Prop :=
  ∀ c, rest ≠ [] → Sees good c (ls ++ rest) →
    (∃ a c', p c = .ok a c' ∧ Q a ∧ Sees good c' rest ∧ c'.comments = c.comments) ∨
      ¬good ∧ ∃ e c', p c = .error e c'

/-- The kind of the next lexeme. -/
def nextKind (ls : List Lexeme) : Option TokenKind :=
  ls.head?.map Lexeme.kind

@[simp] theorem nextKind_cons (l : Lexeme) (ls : List Lexeme) :
    nextKind (l :: ls) = some l.kind := rfl

theorem Sees.nextKind_eq {good : Prop} {c : Cursor} {ls : List Lexeme} (h : Sees good c ls) :
    nextKind ls = some c.current.kind := by
  cases ls with
  | nil => simpa using h.kinds_eq
  | cons l ls => rw [nextKind_cons, (List.cons.inj h.kinds_eq).1]

theorem Sees.length_eq {good : Prop} {c : Cursor} {ls : List Lexeme} (h : Sees good c ls) :
    c.ahead.length + 1 = ls.length := by
  simpa using congrArg List.length h.kinds_eq

/-! ## Sequences of steps -/

section Steps

variable {α β : Type} {good : Prop} {p : Parser α} {f : α → Parser β} {ls ls' rest : List Lexeme}
variable {Q : α → Prop} {R : β → Prop}

/-- Two steps in turn succeed if the first one does, and the second behind it. -/
theorem bind_eq_ok {c c' : Cursor} {b : β} :
    (p >>= f) c = .ok b c' ↔ ∃ a c₁, p c = .ok a c₁ ∧ f a c₁ = .ok b c' := by
  change EStateM.bind p f c = _ ↔ _
  rw [EStateM.bind]
  cases p c with
  | ok a c₁ => simp
  | error e c₁ => simp

theorem reads_pure {a : α} (h : Q a) : Reads good (pure a) [] rest Q :=
  fun c _ hc => Or.inl ⟨a, c, rfl, h, hc, rfl⟩

/-- A step that fails needs a reason. -/
theorem reads_of_error (hgood : ¬good) (h : ∀ c, ∃ e c', p c = .error e c') :
    Reads good p ls rest Q :=
  fun c _ _ => Or.inr ⟨hgood, h c⟩

theorem Reads.mono {Q' : α → Prop} (h : Reads good p ls rest Q) (hq : ∀ a, Q a → Q' a) :
    Reads good p ls rest Q' := by
  intro c hr hc
  rcases h c hr hc with ⟨a, c', hp, ha, hc', hcom⟩ | herror
  · exact Or.inl ⟨a, c', hp, hq a ha, hc', hcom⟩
  · exact Or.inr herror

/-- A step and another that depends on its result. -/
theorem Reads.bind (h : Reads good p ls (ls' ++ rest) Q)
    (hf : ∀ a, Q a → Reads good (f a) ls' rest R) : Reads good (p >>= f) (ls ++ ls') rest R := by
  intro c hr hc
  rw [List.append_assoc] at hc
  change (∃ a c', EStateM.bind p f c = .ok a c' ∧ _) ∨
    ¬good ∧ ∃ e c', EStateM.bind p f c = .error e c'
  rw [EStateM.bind]
  rcases h c (by simp [hr]) hc with ⟨a, c₁, hp, ha, hc₁, hcom₁⟩ | ⟨hgood, e, c₁, hp⟩
  · -- the second step starts where the first one stopped
    rw [hp]
    rcases hf a ha c₁ hr hc₁ with ⟨b, c₂, hfa, hb, hc₂, hcom₂⟩ | herror
    · exact Or.inl ⟨b, c₂, hfa, hb, hc₂, hcom₂.trans hcom₁⟩
    · exact Or.inr herror
  · rw [hp]
    exact Or.inr ⟨hgood, e, c₁, rfl⟩

/-- A step over one lexeme and another over the lexemes behind it. -/
theorem Reads.bind_cons {l : Lexeme} (h : Reads good p [l] (ls' ++ rest) Q)
    (hf : ∀ a, Q a → Reads good (f a) ls' rest R) : Reads good (p >>= f) (l :: ls') rest R :=
  h.bind hf

/-- A first step that only looks at what comes. -/
theorem Reads.bind_look (h : Reads good p [] (ls' ++ rest) Q)
    (hf : ∀ a, Q a → Reads good (f a) ls' rest R) : Reads good (p >>= f) ls' rest R :=
  h.bind hf

/-- A last step that passes nothing more. -/
theorem Reads.bind_nil (h : Reads good p ls rest Q) (hf : ∀ a, Q a → Reads good (f a) [] rest R) :
    Reads good (p >>= f) ls rest R := by
  rw [← List.append_nil ls]
  exact Reads.bind h hf

theorem reads_if_pos {P : Prop} [Decidable P] {p' : Parser α} (hP : P)
    (h : Reads good p ls rest Q) : Reads good (if P then p else p') ls rest Q := by
  rwa [if_pos hP]

theorem reads_if_neg {P : Prop} [Decidable P] {p' : Parser α} (hP : ¬P)
    (h : Reads good p' ls rest Q) : Reads good (if P then p else p') ls rest Q := by
  rwa [if_neg hP]

end Steps

/-! ## Looking at the next token -/

section Looks

variable {β : Type} {good : Prop} {ls rest : List Lexeme} {R : β → Prop}

theorem reads_currentKind_bind {f : TokenKind → Parser β} {k : TokenKind}
    (hk : nextKind (ls ++ rest) = some k) (h : Reads good (f k) ls rest R) :
    Reads good (currentKind >>= f) ls rest R := by
  intro c hr hc
  obtain rfl : c.current.kind = k := by
    rw [hc.nextKind_eq] at hk
    exact Option.some.inj hk
  exact h c hr hc

theorem reads_currentPosition_bind {f : Position → Parser β}
    (h : ∀ position, Reads good (f position) ls rest R) :
    Reads good (currentPosition >>= f) ls rest R :=
  fun c hr hc => h c.current.position c hr hc

/-- The tokens still to be read are at least the lexemes that the step passes. -/
theorem reads_remaining_bind {f : Nat → Parser β}
    (h : ∀ n, ls.length ≤ n → Reads good (f n) ls rest R) :
    Reads good (remaining >>= f) ls rest R := by
  intro c hr hc
  have hlen := hc.length_eq
  have hpos := List.length_pos_iff.2 hr
  rw [List.length_append] at hlen
  exact h c.ahead.length (by omega) c hr hc

theorem reads_isAt_bind {f : Bool → Parser β} {k kind : TokenKind}
    (hk : nextKind (ls ++ rest) = some k) (h : Reads good (f (k == kind)) ls rest R) :
    Reads good (isAt kind >>= f) ls rest R := by
  intro c hr hc
  obtain rfl : c.current.kind = k := by
    rw [hc.nextKind_eq] at hk
    exact Option.some.inj hk
  exact h c hr hc

theorem reads_isAt_ne_bind {f : Bool → Parser β} {kind : TokenKind}
    (hk : nextKind (ls ++ rest) ≠ some kind) (h : Reads good (f false) ls rest R) :
    Reads good (isAt kind >>= f) ls rest R := by
  intro c hr hc
  have hne : c.current.kind ≠ kind := fun heq => hk (heq ▸ hc.nextKind_eq)
  refine reads_isAt_bind hc.nextKind_eq ?_ c hr hc
  rwa [beq_false_of_ne hne]

end Looks

/-! ## Passing tokens -/

variable {good : Prop}

/-- Moving over one lexeme arrives at the next, or fails because that is a fault. -/
theorem moveOn_of_sees {current : Token} {ahead : List Token} {comments : List String}
    {l : Lexeme} {rest : List Lexeme} (hr : rest ≠ [])
    (h : Sees good ⟨current, ahead, comments⟩ (l :: rest)) (current' : Token) :
    (∃ c', Cursor.moveOn current' comments ahead = .ok () c' ∧ Sees good c' rest ∧
      c'.comments = comments) ∨
      ¬good ∧ ∃ e c', Cursor.moveOn current' comments ahead = .error e c' := by
  have hkinds : ahead.map Token.kind = rest.map Lexeme.kind := (List.cons.inj h.kinds_eq).2
  cases ahead with
  | nil => exact absurd (by simpa using hkinds.symm) hr
  | cons t ahead =>
    -- the token moved to is the next lexeme
    have hclean : t.kind.isComment = false ∧ (good → t.kind.isPlain = true) := by
      cases rest with
      | nil => exact absurd rfl hr
      | cons l' rest =>
        rw [(List.cons.inj hkinds).1]
        exact h.clean l' (by simp)
    rw [Cursor.moveOn]
    split
    · next hk => simp [hk, TokenKind.isComment] at hclean
    · next hk => exact .inr ⟨fun hgood => by simpa [hk, TokenKind.isPlain] using hclean.2 hgood,
        _, _, rfl⟩
    · next hcomment hfault =>
      refine .inl ⟨⟨t, ahead, comments⟩, rfl,
        ⟨hkinds, ?_, fun l' hl' => h.clean l' (List.mem_cons_of_mem l hl')⟩, rfl⟩
      rw [TokenKind.isPlain]
      · exact hcomment
      · exact hfault

theorem reads_advance (l : Lexeme) (rest : List Lexeme) :
    Reads good advance [l] rest fun _ => True := by
  rintro ⟨current, ahead, comments⟩ hr hc
  rcases moveOn_of_sees hr hc current with ⟨c', hmove, hc', hcom⟩ | hfault
  · exact Or.inl ⟨(), c', hmove, trivial, hc', hcom⟩
  · exact Or.inr hfault

theorem reads_consume (l : Lexeme) (rest : List Lexeme) :
    Reads good consume [l] rest fun _ => True := by
  rintro ⟨current, ahead, comments⟩ hr hc
  rcases moveOn_of_sees hr hc { current with kind := .endOfInput } with
    ⟨c', hmove, hc', hcom⟩ | hfault
  · exact Or.inl ⟨(), c', hmove, trivial, hc', hcom⟩
  · exact Or.inr hfault

section Tokens

variable {l : Lexeme} {rest : List Lexeme} {kind : TokenKind} {what : Expectation}

theorem reads_eat_true (h : l.kind = kind) : Reads good (eat kind) [l] rest (· = true) := by
  refine reads_isAt_bind (k := l.kind) rfl ?_
  rw [h, beq_self_eq_true, if_pos rfl]
  exact (reads_advance l rest).bind_nil fun _ _ => reads_pure rfl

theorem reads_eat_false (h : nextKind rest ≠ some kind) :
    Reads good (eat kind) [] rest (· = false) :=
  reads_isAt_ne_bind h (reads_pure rfl)

theorem reads_eatSymbol (s : Symbol) :
    Reads good (eatSymbol s) [Lexeme.ofSymbol s] rest (· = true) :=
  reads_eat_true rfl

theorem reads_eatKeyword (k : Keyword) :
    Reads good (eatKeyword k) [Lexeme.ofKeyword k] rest (· = true) :=
  reads_eat_true rfl

/-- A reserved word that may stand here or not. -/
theorem reads_eatKeyword_if (present : Bool) {k : Keyword}
    (hrest : present = false → nextKind rest ≠ some (.keyword k)) :
    Reads good (eatKeyword k) (if present then [Lexeme.ofKeyword k] else []) rest (· = present) := by
  cases present with
  | true => exact reads_eatKeyword k
  | false => exact reads_eat_false (hrest rfl)

theorem reads_expect (h : l.kind = kind) :
    Reads good (expect kind what) [l] rest fun _ => True := by
  refine reads_isAt_bind (k := l.kind) rfl ?_
  rw [h, beq_self_eq_true, if_pos rfl]
  exact reads_advance l rest

theorem reads_expectSymbol (s : Symbol) :
    Reads good (expectSymbol s what) [Lexeme.ofSymbol s] rest fun _ => True :=
  reads_expect rfl

theorem reads_expectKeyword (k : Keyword) :
    Reads good (expectKeyword k what) [Lexeme.ofKeyword k] rest fun _ => True :=
  reads_expect rfl

/-- A name that a cursor stands on has characters: the lexeme of the empty name is a fault. -/
theorem reads_of_name {α : Type} {p : Parser α} {name : String} {ls : List Lexeme}
    {Q : α → Prop} (h : name ≠ "" → Reads good p (Lexeme.ofName name :: ls) rest Q) :
    Reads good p (Lexeme.ofName name :: ls) rest Q := by
  intro c hr hc
  refine h ?_ c hr hc
  rintro rfl
  -- empty brackets are a fault, which is not plain
  have hkind : c.current.kind = (Lexeme.ofName "").kind := (List.cons.inj hc.kinds_eq).1
  have hplain := hc.current_plain
  rw [hkind] at hplain
  exact absurd hplain (by decide)

theorem reads_identifier (name : String) :
    Reads good (identifier what) [Lexeme.ofName name] rest (· = name) := by
  apply reads_of_name
  intro hname
  refine reads_currentKind_bind (k := .identifier name) ?_ ?_
  · rw [List.singleton_append, nextKind_cons, Lexeme.ofName_kind hname]
  · exact (reads_consume _ rest).bind_nil fun _ _ => reads_pure rfl

end Tokens

/-! ## Lists with commas -/

section Lists

variable {α β : Type} {item : Parser α} {ls : β → List Lexeme} {rest : List Lexeme}
variable {Q : β → α → Prop} (stops : Option TokenKind → Prop)

theorem commaLexemes_cons (first : List Lexeme) (others : List (List Lexeme)) :
    commaLexemes (first :: others) =
      first ++ others.flatMap (Lexeme.ofSymbol .comma :: ·) := by
  induction others generalizing first with
  | nil => simp [commaLexemes]
  | cons second others ih =>
    rw [commaLexemes, ih second, List.flatMap_cons, List.cons_append]
    simp

theorem length_le_flatMap_comma (phrases : List (List Lexeme)) :
    phrases.length ≤ (phrases.flatMap (Lexeme.ofSymbol .comma :: ·)).length := by
  induction phrases with
  | nil => exact Nat.zero_le _
  | cons phrase phrases ih =>
    rw [List.flatMap_cons, List.length_append, List.length_cons, List.length_cons]
    omega

/-- Further items are read as long as commas come, if each item ends where a comma or the
rest begins. -/
theorem reads_commaItems (hcomma : stops (some (.symbol .comma))) (hrest : stops (nextKind rest))
    (hend : nextKind rest ≠ some (.symbol .comma)) (xs : List β)
    (hitem : ∀ x ∈ xs, ∀ r, stops (nextKind r) → Reads good item (ls x) r (Q x)) (n : Nat)
    (hn : xs.length ≤ n) :
    Reads good (commaItems item n) ((xs.map ls).flatMap (Lexeme.ofSymbol .comma :: ·)) rest
      (List.Forall₂ Q xs) := by
  induction xs generalizing n with
  | nil =>
    cases n with
    | zero => exact reads_pure .nil
    | succ n =>
      refine (reads_eat_false hend).bind_nil ?_
      rintro _ rfl
      exact reads_pure .nil
  | cons x xs ih =>
    rw [List.length_cons] at hn
    obtain ⟨n, rfl⟩ := Nat.exists_eq_succ_of_ne_zero (n := n) (by omega)
    have hxs := ih (fun y hy => hitem y (List.mem_cons_of_mem x hy)) n (by omega)
    refine Reads.bind_cons (reads_eatSymbol .comma) ?_
    rintro _ rfl
    -- behind the item comes the comma of the next one, or the rest
    have hnext : stops (nextKind ((xs.map ls).flatMap (Lexeme.ofSymbol .comma :: ·) ++ rest)) := by
      cases xs with
      | nil => simpa using hrest
      | cons y xs => simpa using hcomma
    refine (hitem x List.mem_cons_self _ hnext).bind fun a ha => ?_
    exact hxs.bind_nil fun as has => reads_pure (.cons ha has)

/-- One or more items are read back, item by item. -/
theorem reads_commaList (hcomma : stops (some (.symbol .comma))) (hrest : stops (nextKind rest))
    (hend : nextKind rest ≠ some (.symbol .comma)) {xs : List β} (hne : xs ≠ [])
    (hitem : ∀ x ∈ xs, ∀ r, stops (nextKind r) → Reads good item (ls x) r (Q x)) :
    Reads good (commaList item) (commaLexemes (xs.map ls)) rest (List.Forall₂ Q xs) := by
  obtain ⟨x, xs, rfl⟩ := List.exists_cons_of_ne_nil hne
  rw [List.map_cons, commaLexemes_cons]
  have hnext : stops (nextKind ((xs.map ls).flatMap (Lexeme.ofSymbol .comma :: ·) ++ rest)) := by
    cases xs with
    | nil => simpa using hrest
    | cons y xs => simpa using hcomma
  refine (hitem x List.mem_cons_self _ hnext).bind fun a ha => ?_
  apply reads_remaining_bind
  intro n hn
  have hlength : xs.length ≤ n := by
    simpa using Nat.le_trans (length_le_flatMap_comma (xs.map ls)) hn
  have hxs := reads_commaItems stops hcomma hrest hend xs
    (fun y hy => hitem y (List.mem_cons_of_mem x hy)) n hlength
  exact hxs.bind_nil fun as has => reads_pure (.cons ha has)

/-- Items that are read back exactly give the list back. -/
theorem reads_commaList_eq {ls : α → List Lexeme} (hcomma : stops (some (.symbol .comma)))
    (hrest : stops (nextKind rest)) (hend : nextKind rest ≠ some (.symbol .comma)) {xs : List α}
    (hne : xs ≠ [])
    (hitem : ∀ x ∈ xs, ∀ r, stops (nextKind r) → Reads good item (ls x) r (· = x)) :
    Reads good (commaList item) (commaLexemes (xs.map ls)) rest (· = xs) := by
  have hitem' : ∀ x ∈ xs, ∀ r, stops (nextKind r) → Reads good item (ls x) r (x = ·) :=
    fun x hx r hr => (hitem x hx r hr).mono fun _ => Eq.symm
  refine (reads_commaList stops hcomma hrest hend hne hitem').mono fun as has => ?_
  rw [List.forall₂_eq_eq_eq] at has
  exact has.symm

end Lists

end Sql

end FetchQuery
