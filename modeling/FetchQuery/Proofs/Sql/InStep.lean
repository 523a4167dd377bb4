import FetchQuery.Proofs.Sql.Reading
import Mathlib.Data.List.Forall2

/-!
# Two readings in step

A parser looks at the kinds of tokens and at what `Token.describe` says of them; it takes positions
along and never looks at them, and it does not see comments at all. So two token lists that agree in
this are read in step: both readings pass the same number of tokens, both give the same result or
both fail with the same fault, and the positions they point at belong to corresponding tokens.

A `Track` is such a pair of lists. `Abreast` says that two cursors stand on corresponding tokens,
and `InStep` that two steps keep cursors abreast. Bounds on the number of items or on the depth of
parentheses come from the tokens ahead, comments included, so they differ between the readings.
`InStep` is restricted to cursors with at most `d` tokens ahead; no bound from `d` on is reached
(`inStep_rounds`).

A list is its own companion as well. Then `Abreast` says what a single reading has passed.
-/

set_option autoImplicit false

namespace FetchQuery

/-- Whether a token is an operator or punctuation. -/
def TokenKind.isSymbol : TokenKind → Bool
  | .symbol _ => true
  | _ => false

/-- Tokens that a parser does not tell apart: they have one kind, and operators and punctuation
have one text. -/
structure SameToken (t t' : Token) : Prop where
  kind_eq : t.kind = t'.kind
  text_eq : t.kind.isSymbol = true → t.text = t'.text

instance (t t' : Token) : Decidable (SameToken t t') :=
  decidable_of_iff (t.kind = t'.kind ∧ (t.kind.isSymbol = true → t.text = t'.text))
    ⟨fun h => ⟨h.1, h.2⟩, fun h => ⟨h.kind_eq, h.text_eq⟩⟩

theorem SameToken.refl (t : Token) : SameToken t t :=
  ⟨rfl, fun _ => rfl⟩

theorem SameToken.describe_eq {t t' : Token} (h : SameToken t t') : t.describe = t'.describe := by
  obtain ⟨kind, text, position⟩ := t
  obtain ⟨kind', text', position'⟩ := t'
  obtain ⟨hkind, htext⟩ := h
  obtain rfl : kind = kind' := hkind
  cases kind with
  | symbol sign =>
    obtain rfl : text = text' := htext rfl
    rfl
  | _ => rfl

/-! ## The end of the input -/

/-- A token list with the end of the input as its last token, and nowhere else. -/
def EndsOnce (tokens : List Token) : Prop :=
  ∃ init last, tokens = init ++ [last] ∧ last.kind = .endOfInput ∧
    ∀ t ∈ init, t.kind ≠ .endOfInput

theorem endsOnce_drop {tokens : List Token} (h : EndsOnce tokens) {n : Nat}
    (hne : tokens.drop n ≠ []) : EndsOnce (tokens.drop n) := by
  obtain ⟨init, last, rfl, hlast, hinit⟩ := h
  have hn : n ≤ init.length := by
    rw [Ne, List.drop_eq_nil_iff, List.length_append, List.length_singleton] at hne
    omega
  refine ⟨init.drop n, last, List.drop_append_of_le_length hn, hlast, ?_⟩
  exact fun t ht => hinit t (List.mem_of_mem_drop ht)

theorem endsOnce_scanFrom (skip : Nat) (p : Position) (cs : List Char) :
    EndsOnce (scanFrom skip p cs) := by
  induction cs generalizing skip p with
  | nil => cases skip <;> exact ⟨[], ⟨.endOfInput, "", p⟩, rfl, rfl, by simp⟩
  | cons c cs ih =>
    cases skip with
    | succ skip => exact ih skip (p.after c)
    | zero =>
      rw [scanFrom]
      split
      · exact ih 0 (p.after c)
      · obtain ⟨init, last, htokens, hlast, hinit⟩ := ih ((lexeme c cs).text.length - 1) (p.after c)
        simp only [htokens]
        refine ⟨_ :: init, last, rfl, hlast, ?_⟩
        exact List.forall_mem_cons.2 ⟨lexeme_ne_endOfInput c cs, hinit⟩

namespace Sql

/-- The tokens that a parser meets: those that are no comments. -/
def spoken (tokens : List Token) : List Token :=
  tokens.filter fun t => !t.kind.isComment

theorem endsOnce_spoken {tokens : List Token} (h : EndsOnce tokens) : EndsOnce (spoken tokens) := by
  obtain ⟨init, last, rfl, hlast, hinit⟩ := h
  refine ⟨spoken init, last, ?_, hlast, fun t ht => hinit t (List.mem_filter.1 ht).1⟩
  rw [spoken, List.filter_append, List.filter_cons_of_pos (by rw [hlast]; rfl), List.filter_nil]
  rfl

/-- Moving on over comments arrives at the next token that is none, or fails because it is a
fault. -/
theorem moveOn_of_spoken (current : Token) {t : Token} {tokens more : List Token}
    (h : spoken tokens = t :: more) (comments : List String) :
    (∃ cause rest comments', t.kind = .fault cause ∧ Cursor.moveOn current comments tokens =
        .error ⟨.scan cause, t.position⟩ ⟨current, rest, comments'⟩) ∨
      (∀ cause, t.kind ≠ .fault cause) ∧ ∃ rest comments', spoken rest = more ∧
        Cursor.moveOn current comments tokens = .ok () ⟨t, rest, comments'⟩ := by
  induction tokens generalizing comments with
  | nil => simp [spoken] at h
  | cons u tokens ih =>
    rw [Cursor.moveOn]
    split
    · next body hkind =>
      refine ih ?_ (comments ++ [body])
      rwa [spoken, List.filter_cons_of_neg (by simp [hkind, TokenKind.isComment])] at h
    · next cause hkind =>
      rw [spoken, List.filter_cons_of_pos (by simp [hkind, TokenKind.isComment])] at h
      obtain ⟨rfl, -⟩ := List.cons.inj h
      exact .inl ⟨cause, tokens, comments, hkind, rfl⟩
    · next hcomment hfault =>
      have hspoken : u.kind.isComment = false := by
        cases hkind : u.kind with
        | comment body => exact absurd hkind (hcomment body)
        | _ => rfl
      rw [spoken, List.filter_cons_of_pos (by simp [hspoken])] at h
      obtain ⟨rfl, hmore⟩ := List.cons.inj h
      exact .inr ⟨hfault, tokens, comments, hmore, rfl⟩

namespace Cursor

/-- The tokens still to be read, the current one first. -/
def rest (c : Cursor) : List Token :=
  c.current :: spoken c.ahead

/-- The number of tokens behind the current one. -/
def size (c : Cursor) : Nat :=
  (spoken c.ahead).length

theorem size_le_length (c : Cursor) : c.size ≤ c.ahead.length :=
  List.length_filter_le _ _

/-- Nothing stands behind the end of the input, and something behind every other token. -/
theorem size_eq_zero_iff (c : Cursor) (h : EndsOnce c.rest) :
    c.size = 0 ↔ c.current.kind = .endOfInput := by
  obtain ⟨init, last, hrest, hlast, hinit⟩ := h
  rw [Cursor.size, List.length_eq_zero_iff]
  cases init with
  | nil =>
    obtain ⟨rfl, hahead⟩ := List.cons.inj hrest
    exact iff_of_true hahead hlast
  | cons t init =>
    obtain ⟨rfl, hahead⟩ := List.cons.inj hrest
    refine iff_of_false ?_ (hinit _ List.mem_cons_self)
    rw [hahead]
    simp

end Cursor

/-! ## Corresponding places -/

/-- Two token lists that correspond token by token, and whether the word `ORDER` may be passed in
them. -/
structure Track where
  left : List Token
  right : List Token
  same : List.Forall₂ SameToken left right
  ends : EndsOnce left
  sorts : Bool

namespace Track

/-- Whether a token of this kind may be passed. -/
def Passes (T : Track) (k : TokenKind) : Prop :=
  k ≠ .endOfInput ∧ (k = .keyword .order → T.sorts = true)

theorem passes_of_ne (T : Track) {k : TokenKind} (hend : k ≠ .endOfInput)
    (horder : k ≠ .keyword .order) : T.Passes k :=
  ⟨hend, fun h => absurd h horder⟩

theorem passes_keyword (T : Track) {word : Keyword} (h : word ≠ .order) (k : TokenKind)
    (hk : k = .keyword word) : T.Passes k := by
  subst hk
  exact T.passes_of_ne (by simp) (by simpa using h)

/-- Positions of corresponding tokens. -/
def At (T : Track) (p p' : Position) : Prop :=
  ∃ (n : Nat) (t t' : Token), T.left[n]? = some t ∧ T.right[n]? = some t' ∧ p = t.position ∧
    p' = t'.position

/-- Errors with one fault, at corresponding tokens. -/
structure SameError (T : Track) (e e' : SyntaxError) : Prop where
  fault_eq : e.fault = e'.fault
  positions : T.At e.position e'.position

/-- Cursors that stand on corresponding tokens, behind tokens that may be passed. -/
def Abreast (T : Track) (c c' : Cursor) : Prop :=
  ∃ n, T.left.drop n = c.rest ∧ T.right.drop n = c'.rest ∧ ∀ t ∈ T.left.take n, T.Passes t.kind

section Abreast

variable {T : Track} {c c' : Cursor} (h : T.Abreast c c')

include h

theorem Abreast.rest_same : List.Forall₂ SameToken c.rest c'.rest := by
  obtain ⟨n, hleft, hright, -⟩ := h
  rw [← hleft, ← hright]
  exact List.forall₂_drop n T.same

theorem Abreast.current_same : SameToken c.current c'.current := by
  obtain ⟨hcurrent, -⟩ := List.forall₂_cons.1 h.rest_same
  exact hcurrent

theorem Abreast.kind_eq : c.current.kind = c'.current.kind :=
  h.current_same.kind_eq

theorem Abreast.ahead_same : List.Forall₂ SameToken (spoken c.ahead) (spoken c'.ahead) := by
  obtain ⟨-, hahead⟩ := List.forall₂_cons.1 h.rest_same
  exact hahead

theorem Abreast.size_eq : c.size = c'.size :=
  h.ahead_same.length_eq

theorem Abreast.at : T.At c.current.position c'.current.position := by
  obtain ⟨n, hleft, hright, -⟩ := h
  refine ⟨n, c.current, c'.current, ?_, ?_, rfl, rfl⟩
  · rw [← List.head?_drop, hleft, Cursor.rest, List.head?_cons]
  · rw [← List.head?_drop, hright, Cursor.rest, List.head?_cons]

theorem Abreast.current_mem : c.current ∈ T.left := by
  obtain ⟨n, hleft, -, -⟩ := h
  refine List.mem_of_mem_drop (i := n) ?_
  rw [hleft, Cursor.rest]
  exact List.mem_cons_self

theorem Abreast.endsOnce_rest : EndsOnce c.rest := by
  obtain ⟨n, hleft, -, -⟩ := h
  rw [← hleft]
  exact endsOnce_drop T.ends (by rw [hleft, Cursor.rest]; simp)

theorem Abreast.size_eq_zero_iff : c.size = 0 ↔ c.current.kind = .endOfInput :=
  c.size_eq_zero_iff h.endsOnce_rest

/-- The tokens behind the current ones stand in corresponding places too, behind tokens that may be
passed if the current one may. -/
theorem Abreast.ahead_at (hpasses : T.Passes c.current.kind) :
    ∃ n, T.left.drop n = spoken c.ahead ∧ T.right.drop n = spoken c'.ahead ∧
      ∀ t ∈ T.left.take n, T.Passes t.kind := by
  obtain ⟨n, hleft, hright, htake⟩ := h
  refine ⟨n + 1, ?_, ?_, ?_⟩
  · rw [← List.drop_drop, hleft]
    rfl
  · rw [← List.drop_drop, hright]
    rfl
  · have hcurrent : T.left[n]? = some c.current := by
      rw [← List.head?_drop, hleft, Cursor.rest, List.head?_cons]
    intro t ht
    rw [List.take_add_one, hcurrent, List.mem_append] at ht
    rcases ht with ht | ht
    · exact htake t ht
    · obtain rfl : t = c.current := by simpa using ht
      exact hpasses

end Abreast

/-- Passing a token keeps cursors abreast, or both readings meet the same fault. -/
theorem Abreast.moveOn {T : Track} {c c' : Cursor} (h : T.Abreast c c')
    (hpasses : T.Passes c.current.kind) (current current' : Token) :
    (∃ d d', Cursor.moveOn current c.comments c.ahead = .ok () d ∧
        Cursor.moveOn current' c'.comments c'.ahead = .ok () d' ∧ T.Abreast d d' ∧
        d.size < c.size) ∨
      ∃ e e' d d', Cursor.moveOn current c.comments c.ahead = .error e d ∧
        Cursor.moveOn current' c'.comments c'.ahead = .error e' d' ∧ T.SameError e e' := by
  have hsize : c.size ≠ 0 := mt h.size_eq_zero_iff.1 hpasses.1
  have hsame := h.ahead_same
  obtain ⟨n, hleft, hright, hpassed⟩ := h.ahead_at hpasses
  rw [Cursor.size] at hsize ⊢
  cases hahead : spoken c.ahead with
  | nil => simp [hahead] at hsize
  | cons t more =>
    rw [hahead] at hsame hleft
    obtain ⟨t', more', htt', -, hahead'⟩ := List.forall₂_cons_left_iff.1 hsame
    rw [hahead'] at hright
    -- the next tokens are of one kind, so both readings meet a fault or neither does
    rcases moveOn_of_spoken current hahead c.comments with
      ⟨cause, rest, comments, hcause, hmove⟩ | ⟨hfault, rest, comments, hrest, hmove⟩
    · rcases moveOn_of_spoken current' hahead' c'.comments with
        ⟨cause', rest', comments', hcause', hmove'⟩ | ⟨hfault', -⟩
      · obtain rfl : cause = cause' := by
          have hkind := htt'.kind_eq
          rw [hcause, hcause'] at hkind
          exact TokenKind.fault.inj hkind
        have hat : T.At t.position t'.position := by
          refine ⟨n, t, t', ?_, ?_, rfl, rfl⟩
          · rw [← List.head?_drop, hleft, List.head?_cons]
          · rw [← List.head?_drop, hright, List.head?_cons]
        exact .inr ⟨_, _, _, _, hmove, hmove', ⟨rfl, hat⟩⟩
      · exact absurd (htt'.kind_eq.symm.trans hcause) (hfault' cause)
    · rcases moveOn_of_spoken current' hahead' c'.comments with
        ⟨cause', rest', comments', hcause', hmove'⟩ | ⟨-, rest', comments', hrest', hmove'⟩
      · exact absurd (htt'.kind_eq.trans hcause') (hfault cause')
      · refine .inl ⟨_, _, hmove, hmove', ⟨n, ?_, ?_, hpassed⟩, ?_⟩
        · rw [hleft, Cursor.rest, hrest]
        · rw [hright, Cursor.rest, hrest']
        · rw [Cursor.size, hrest, List.length_cons]
          exact Nat.lt_succ_self _

/-- Outcomes of two readings: both succeed, on cursors that are abreast with at most `n` tokens
ahead, or both fail with one fault at corresponding tokens. -/
inductive Meets (T : Track) {α β : Type} (R : α → β → Prop) (n : Nat) :
    EStateM.Result SyntaxError Cursor α → EStateM.Result SyntaxError Cursor β → Prop
  | ok {a : α} {b : β} {c c' : Cursor} (hab : R a b) (hc : T.Abreast c c') (hsize : c.size ≤ n) :
    Meets T R n (.ok a c) (.ok b c')
  | error {e e' : SyntaxError} {c c' : Cursor} (herror : T.SameError e e') :
    Meets T R n (.error e c) (.error e' c')

/-- Steps that keep readings in step from cursors with at most `d` tokens ahead, on a token of a
kind in `K`. -/
def InStep (T : Track) {α β : Type} (d : Nat) (K : TokenKind → Prop) (p : Parser α) (p' : Parser β)
    (R : α → β → Prop) : Prop :=
  ∀ c c', T.Abreast c c' → c.size ≤ d → K c.current.kind → T.Meets R c.size (p c) (p' c')

end Track

open Track

/-! ## Sequences of steps -/

variable {T : Track} {d : Nat} {K K' : TokenKind → Prop}

section Steps

variable {α α' β β' : Type} {p : Parser α} {p' : Parser α'} {f : α → Parser β} {f' : α' → Parser β'}
variable {Q Q' : α → α' → Prop} {R : β → β' → Prop}

theorem inStep_pure {a : α} {a' : α'} (h : Q a a') : T.InStep d K (pure a) (pure a') Q :=
  fun _ _ hc _ _ => .ok h hc (Nat.le_refl _)

theorem Track.Meets.mono {n m : Nat} {r : EStateM.Result SyntaxError Cursor α}
    {r' : EStateM.Result SyntaxError Cursor α'} (h : T.Meets Q n r r') (hn : n ≤ m)
    (hq : ∀ a a', Q a a' → Q' a a') : T.Meets Q' m r r' := by
  cases h with
  | ok hab hc hsize => exact .ok (hq _ _ hab) hc (Nat.le_trans hsize hn)
  | error herror => exact .error herror

theorem Track.InStep.mono (h : T.InStep d K p p' Q) (hq : ∀ a a', Q a a' → Q' a a') :
    T.InStep d K p p' Q' :=
  fun c c' hc hd hk => (h c c' hc hd hk).mono (Nat.le_refl _) hq

/-- A step and another that depends on its result, when the first leaves the cursor on a token of
a kind in `K'`. -/
theorem Track.InStep.bind_at (h : T.InStep d K p p' Q)
    (hkind : ∀ c a c', K c.current.kind → p c = .ok a c' → K' c'.current.kind)
    (hf : ∀ a a', Q a a' → T.InStep d K' (f a) (f' a') R) :
    T.InStep d K (p >>= f) (p' >>= f') R := by
  intro c c' hc hd hk
  change T.Meets R c.size (EStateM.bind p f c) (EStateM.bind p' f' c')
  have hp := h c c' hc hd hk
  rw [EStateM.bind, EStateM.bind]
  generalize hresult : p c = result at hp
  generalize p' c' = result' at hp
  cases hp with
  | @ok a a' c₁ _ hab hc₁ hsize =>
    have hnext := hf a a' hab _ _ hc₁ (Nat.le_trans hsize hd) (hkind c a c₁ hk hresult)
    exact hnext.mono hsize fun _ _ hr => hr
  | error herror => exact .error herror

/-- A step and another that depends on its result. -/
theorem Track.InStep.bind (h : T.InStep d K p p' Q)
    (hf : ∀ a a', Q a a' → T.InStep d (fun _ => True) (f a) (f' a') R) :
    T.InStep d K (p >>= f) (p' >>= f') R :=
  h.bind_at (fun _ _ _ _ _ => trivial) hf

/-- A step and another that depends on its result, when both readings give the same one. -/
theorem Track.InStep.eq_bind {q q' : Parser α} {g : α → Parser β} {g' : α → Parser β'}
    (h : T.InStep d K q q' Eq) (hg : ∀ a, T.InStep d (fun _ => True) (g a) (g' a) R) :
    T.InStep d K (q >>= g) (q' >>= g') R := by
  refine h.bind ?_
  rintro a _ rfl
  exact hg a

/-- What a single reading gives, and where it gets to. -/
theorem Track.InStep.of_ok {q : Parser α} {S : α → α → Prop} {c c₁ : Cursor} {a : α}
    (h : T.InStep c.size (fun _ => True) q q S) (hc : T.Abreast c c) (hq : q c = .ok a c₁) :
    S a a ∧ T.Abreast c₁ c₁ := by
  have hmeets := h c c hc (Nat.le_refl _) trivial
  rw [hq] at hmeets
  cases hmeets with
  | ok hab hc₁ _ => exact ⟨hab, hc₁⟩

theorem inStep_ite {P : Prop} [Decidable P] {q : Parser α} {q' : Parser α'}
    (h : P → T.InStep d K p p' Q) (h' : ¬P → T.InStep d K q q' Q) :
    T.InStep d K (if P then p else q) (if P then p' else q') Q := by
  split
  · next hP => exact h hP
  · next hP => exact h' hP

/-! ## Looking and failing -/

theorem inStep_currentKind_bind {f : TokenKind → Parser β} {f' : TokenKind → Parser β'}
    (h : ∀ k, K k → T.InStep d (· = k) (f k) (f' k) R) :
    T.InStep d K (currentKind >>= f) (currentKind >>= f') R := by
  intro c c' hc hd hk
  have hstep := h c.current.kind hk c c' hc hd rfl
  have hkind : c'.current.kind = c.current.kind := hc.kind_eq.symm
  change T.Meets R c.size (f c.current.kind c) (f' c'.current.kind c')
  rwa [hkind]

theorem inStep_currentPosition_bind {f : Position → Parser β} {f' : Position → Parser β'}
    (h : ∀ p p', T.At p p' → T.InStep d K (f p) (f' p') R) :
    T.InStep d K (currentPosition >>= f) (currentPosition >>= f') R :=
  fun c c' hc hd hk => h _ _ hc.at c c' hc hd hk

/-- The bounds that come from the tokens ahead are large enough for both readings. -/
theorem inStep_remaining_bind {f : Nat → Parser β} {f' : Nat → Parser β'}
    (h : ∀ e n n', e ≤ d → e ≤ n → e ≤ n' → T.InStep e K (f n) (f' n') R) :
    T.InStep d K (remaining >>= f) (remaining >>= f') R := by
  intro c c' hc hd hk
  have hn' : c.size ≤ c'.ahead.length := by
    rw [hc.size_eq]
    exact c'.size_le_length
  exact h c.size _ _ hd c.size_le_length hn' c c' hc (Nat.le_refl _) hk

theorem inStep_isAt_bind {kind : TokenKind} {f : Bool → Parser β} {f' : Bool → Parser β'}
    (hyes : K kind → T.InStep d (· = kind) (f true) (f' true) R)
    (hno : T.InStep d (fun k => K k ∧ k ≠ kind) (f false) (f' false) R) :
    T.InStep d K (isAt kind >>= f) (isAt kind >>= f') R := by
  intro c c' hc hd hk
  have hkind : c'.current.kind = c.current.kind := hc.kind_eq.symm
  change T.Meets R c.size (f (c.current.kind == kind) c) (f' (c'.current.kind == kind) c')
  rw [hkind]
  by_cases hat : c.current.kind = kind
  · rw [beq_iff_eq.2 hat]
    exact hyes (hat ▸ hk) c c' hc hd hat
  · rw [beq_false_of_ne hat]
    exact hno c c' hc hd ⟨hk, hat⟩

theorem inStep_failAt (fault : SyntaxFault) {position position' : Position}
    (h : T.At position position') :
    T.InStep d K (failAt fault position) (failAt fault position') Q :=
  fun _ _ _ _ _ => .error ⟨rfl, h⟩

theorem inStep_failHere (fault : SyntaxFault) :
    T.InStep d K (failHere fault) (failHere fault) Q :=
  fun _ _ hc _ _ => .error ⟨rfl, hc.at⟩

theorem inStep_unexpected (what : Expectation) :
    T.InStep d K (unexpected what) (unexpected what) Q := by
  intro c c' hc _ _
  refine .error ⟨?_, hc.at⟩
  rw [hc.current_same.describe_eq]

theorem inStep_inScope {position position' : Position} (h : T.At position position')
    (r : Except ScopeFault α) :
    T.InStep d K (inScope position r) (inScope position' r) Eq := by
  cases r with
  | ok a => exact inStep_pure rfl
  | error fault => exact inStep_failAt _ h

end Steps

/-! ## Passing tokens -/

/-- Passing a token leaves fewer ahead. -/
theorem meets_advance {c c' : Cursor} (hc : T.Abreast c c') (hpasses : T.Passes c.current.kind) :
    T.Meets (fun _ _ => True) (c.size - 1) (advance c) (advance c') := by
  rcases hc.moveOn hpasses c.current c'.current with
    ⟨e, e', hmove, hmove', he, hsize⟩ | ⟨e, e', _, _, hmove, hmove', herror⟩
  · rw [advance, advance, hmove, hmove']
    exact .ok trivial he (Nat.le_sub_one_of_lt hsize)
  · rw [advance, advance, hmove, hmove']
    exact .error herror

theorem inStep_advance (h : ∀ k, K k → T.Passes k) :
    T.InStep d K advance advance fun _ _ => True :=
  fun _ _ hc _ hk => (meets_advance hc (h _ hk)).mono (Nat.sub_le _ _) fun _ _ h => h

/-- What follows a token has fewer tokens ahead. -/
theorem inStep_advance_bind {α α' : Type} {f : Unit → Parser α} {f' : Unit → Parser α'}
    {R : α → α' → Prop} (hpasses : ∀ k, K k → T.Passes k)
    (h : ∀ e < d, T.InStep e (fun _ => True) (f ()) (f' ()) R) :
    T.InStep d K (advance >>= f) (advance >>= f') R := by
  intro c c' hc hd hk
  have hpos : c.size ≠ 0 := mt hc.size_eq_zero_iff.1 (hpasses _ hk).1
  have hadvance := meets_advance hc (hpasses _ hk)
  change T.Meets R c.size (EStateM.bind advance f c) (EStateM.bind advance f' c')
  rw [EStateM.bind, EStateM.bind]
  generalize advance c = result at hadvance
  generalize advance c' = result' at hadvance
  cases hadvance with
  | @ok _ _ c₁ _ _ hc₁ hsize =>
    have hnext := h c₁.size (by omega) _ _ hc₁ (Nat.le_refl _) trivial
    exact hnext.mono (by omega) fun _ _ hr => hr
  | error herror => exact .error herror

theorem inStep_consume (h : ∀ k, K k → T.Passes k) :
    T.InStep d K consume consume fun _ _ => True := by
  intro c c' hc _ hk
  rcases hc.moveOn (h _ hk) { c.current with kind := .endOfInput }
    { c'.current with kind := .endOfInput } with
    ⟨e, e', hmove, hmove', he, hsize⟩ | ⟨e, e', _, _, hmove, hmove', herror⟩
  · rw [consume, consume, advance, advance, hmove, hmove']
    exact .ok trivial he (Nat.le_of_lt hsize)
  · rw [consume, consume, advance, advance, hmove, hmove']
    exact .error herror

theorem eat_of_eq {kind : TokenKind} {c : Cursor} (h : c.current.kind = kind) :
    eat kind c = EStateM.bind advance (fun _ => pure true) c := by
  change (if (c.current.kind == kind) = true then advance >>= fun _ => pure true
    else pure false : Parser Bool) c = _
  rw [if_pos (beq_iff_eq.2 h)]
  rfl

theorem eat_of_ne {kind : TokenKind} {c : Cursor} (h : c.current.kind ≠ kind) :
    eat kind c = .ok false c := by
  change (if (c.current.kind == kind) = true then advance >>= fun _ => pure true
    else pure false : Parser Bool) c = _
  rw [if_neg (by simpa using h)]
  rfl

theorem eat_bind_of_eq {β : Type} {kind : TokenKind} {f : Bool → Parser β} {c : Cursor}
    (h : c.current.kind = kind) : (eat kind >>= f) c = (advance >>= fun _ => f true) c := by
  change EStateM.bind (eat kind) f c = EStateM.bind advance (fun _ => f true) c
  rw [EStateM.bind, eat_of_eq h, EStateM.bind, EStateM.bind]
  cases advance c <;> rfl

theorem eat_bind_of_ne {β : Type} {kind : TokenKind} {f : Bool → Parser β} {c : Cursor}
    (h : c.current.kind ≠ kind) : (eat kind >>= f) c = f false c := by
  change EStateM.bind (eat kind) f c = _
  rw [EStateM.bind, eat_of_ne h]

section Tokens

variable {α α' : Type} {f : Bool → Parser α} {f' : Bool → Parser α'} {R : α → α' → Prop}
  {kind : TokenKind}

/-- A token that decides how to go on: behind it there are fewer tokens ahead. -/
theorem inStep_eat_bind (hpasses : T.Passes kind)
    (hyes : ∀ e < d, T.InStep e (fun _ => True) (f true) (f' true) R)
    (hno : T.InStep d (fun k => K k ∧ k ≠ kind) (f false) (f' false) R) :
    T.InStep d K (eat kind >>= f) (eat kind >>= f') R := by
  intro c c' hc hd hk
  by_cases hat : c.current.kind = kind
  · rw [eat_bind_of_eq hat, eat_bind_of_eq (hc.kind_eq.symm.trans hat)]
    refine inStep_advance_bind (K := (· = kind)) ?_ hyes c c' hc hd hat
    rintro _ rfl
    exact hpasses
  · rw [eat_bind_of_ne hat, eat_bind_of_ne (fun h => hat (hc.kind_eq.trans h))]
    exact hno c c' hc hd ⟨hk, hat⟩

theorem inStep_eat (hpasses : T.Passes kind) : T.InStep d K (eat kind) (eat kind) Eq := by
  refine inStep_isAt_bind (fun _ => ?_) (inStep_pure rfl)
  refine (inStep_advance ?_).bind fun _ _ _ => inStep_pure rfl
  rintro _ rfl
  exact hpasses

theorem inStep_expect (hpasses : T.Passes kind) (what : Expectation) :
    T.InStep d K (expect kind what) (expect kind what) fun _ _ => True := by
  refine inStep_isAt_bind (fun _ => ?_) (inStep_unexpected what)
  refine inStep_advance ?_
  rintro _ rfl
  exact hpasses

theorem inStep_identifier (what : Expectation) :
    T.InStep d K (identifier what) (identifier what) Eq := by
  refine inStep_currentKind_bind fun k _ => ?_
  split
  · next name =>
    refine (inStep_consume ?_).bind fun _ _ _ => inStep_pure rfl
    rintro _ rfl
    exact T.passes_of_ne (by simp) (by simp)
  · exact inStep_unexpected what

theorem inStep_atIdentifier : T.InStep d K atIdentifier atIdentifier Eq := by
  refine inStep_currentKind_bind fun k _ => ?_
  split <;> exact inStep_pure rfl

end Tokens

/-! ## Repetition -/

/-- A loop with a bound on its rounds, each of which passes a token. The readings have different
bounds, but none of them is reached before the tokens end. -/
theorem inStep_rounds {ι α α' : Type} (loop : Nat → ι → Parser α) (loop' : Nat → ι → Parser α')
    {R : α → α' → Prop}
    (hend : ∀ n n' i, T.InStep 0 (· = .endOfInput) (loop n i) (loop' n' i) R)
    (hround : ∀ n n' i K, ∀ e ≤ d,
      (∀ e' < e, ∀ i, T.InStep e' (fun _ => True) (loop n i) (loop' n' i) R) →
        T.InStep e K (loop (n + 1) i) (loop' (n' + 1) i) R)
    {n n' : Nat} (hn : d ≤ n) (hn' : d ≤ n') (i : ι) :
    T.InStep d K (loop n i) (loop' n' i) R := by
  -- the induction is on the tokens ahead: the bounds go down by one, and these by at least one
  induction d using Nat.strong_induction_on generalizing K n n' i with
  | _ d ih =>
    cases d with
    | zero =>
      intro c c' hc hd _
      exact hend n n' i c c' hc hd (hc.size_eq_zero_iff.1 (Nat.le_zero.1 hd))
    | succ d =>
      obtain ⟨n, rfl⟩ := Nat.exists_eq_add_of_lt (Nat.lt_of_lt_of_le d.succ_pos hn)
      obtain ⟨n', rfl⟩ := Nat.exists_eq_add_of_lt (Nat.lt_of_lt_of_le d.succ_pos hn')
      refine hround _ _ i K (d + 1) (Nat.le_refl _) fun e he j => ?_
      refine ih e he (fun m m' j K' e' he' => ?_) (by omega) (by omega) j
      exact hround m m' j K' e' (by omega)

section Lists

variable {α : Type} {item item' : Parser α} {R : α → α → Prop}

theorem commaItems_of_ne {c : Cursor} (h : c.current.kind ≠ .symbol .comma) (n : Nat) :
    commaItems item n c = .ok [] c := by
  cases n with
  | zero => rfl
  | succ n => exact eat_bind_of_ne h

theorem inStep_commaItems (hitem : ∀ e, T.InStep e (fun _ => True) item item' R) {n n' : Nat}
    (hn : d ≤ n) (hn' : d ≤ n') :
    T.InStep d K (commaItems item n) (commaItems item' n') (List.Forall₂ R) := by
  refine inStep_rounds (fun n (_ : Unit) => commaItems item n) (fun n _ => commaItems item' n)
    ?_ ?_ hn hn' ()
  · intro n n' _ c c' hc _ hend
    rw [commaItems_of_ne (by simp [hend]), commaItems_of_ne (by simp [← hc.kind_eq, hend])]
    exact .ok .nil hc (Nat.le_refl _)
  · intro n n' _ K e _ ih
    refine inStep_eat_bind (T.passes_of_ne (by simp) (by simp)) (fun e' he' => ?_)
      (inStep_pure .nil)
    refine (hitem e').bind fun a a' ha => ?_
    refine (ih e' he' ()).bind fun as as' has => ?_
    exact inStep_pure (.cons ha has)

theorem inStep_commaList (hitem : ∀ e, T.InStep e (fun _ => True) item item' R) :
    T.InStep d K (commaList item) (commaList item') (List.Forall₂ R) := by
  have hitem' : T.InStep d K item item' R := fun c c' hc hd _ => hitem d c c' hc hd trivial
  refine hitem'.bind fun a a' ha => ?_
  refine inStep_remaining_bind fun e n n' _ hn hn' => ?_
  refine (inStep_commaItems hitem hn hn').bind fun as as' has => ?_
  exact inStep_pure (.cons ha has)

end Lists

end Sql

end FetchQuery
