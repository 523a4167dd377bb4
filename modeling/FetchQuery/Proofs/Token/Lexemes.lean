import FetchQuery.Token.Scan
import FetchQuery.Proofs.Text.Classes

/-!
# Cutting a text into lexemes

The tokens of a text without their positions. `lexemes` cuts a list of characters the way
`tokenize` does (`map_lexeme_tokenize`), and it goes on behind each lexeme as if the text
began there (`lexemes_cons_of_not_blank`).

`Spells p text ls` says that `text` is cut into `ls` in every context that continues with a
character of the class `p`, or ends. Spellings are put together piece by piece
(`Spells.append`); the class at the end of the first piece must admit the beginning of the
second.
-/

set_option autoImplicit false

namespace FetchQuery

open Text

/-- A token without its position. -/
def Token.lexeme (t : Token) : Lexeme :=
  ⟨t.kind, t.text.toList⟩

/-- The lexemes of the characters that remain when the first `skip` of them belong to a
lexeme already found. -/
def lexemesFrom : Nat → List Char → List Lexeme
  | _, [] => []
  | skip + 1, _ :: cs => lexemesFrom skip cs
  | 0, c :: cs =>
    if isBlank c then lexemesFrom 0 cs
    else lexeme c cs :: lexemesFrom ((lexeme c cs).text.length - 1) cs

/-- The lexemes of a list of characters. -/
def lexemes (cs : List Char) : List Lexeme :=
  lexemesFrom 0 cs

/-- Scanning differs from cutting only by positions and by the end token. -/
theorem map_lexeme_scanFrom (skip : Nat) (p : Position) (cs : List Char) :
    (scanFrom skip p cs).map Token.lexeme = lexemesFrom skip cs ++ [⟨.endOfInput, []⟩] := by
  -- the position moves with every character and the count is set by every lexeme
  induction cs generalizing skip p with
  | nil => cases skip <;> rfl
  | cons c cs ih =>
    cases skip with
    | succ skip => exact ih skip (p.after c)
    | zero =>
      rw [scanFrom, lexemesFrom]
      by_cases hb : isBlank c = true
      · rw [if_pos hb, if_pos hb]
        exact ih 0 (p.after c)
      · rw [if_neg hb, if_neg hb]
        simp only [List.map_cons, List.cons_append, ih, Token.lexeme, String.toList_ofList]

theorem map_lexeme_tokenize (source : String) :
    (tokenize source).map Token.lexeme = lexemes source.toList ++ [⟨.endOfInput, []⟩] :=
  map_lexeme_scanFrom 0 Position.start source.toList

theorem lexemesFrom_eq_drop (skip : Nat) (cs : List Char) :
    lexemesFrom skip cs = lexemes (cs.drop skip) := by
  induction cs generalizing skip with
  | nil => cases skip <;> rfl
  | cons c cs ih =>
    cases skip with
    | zero => rfl
    | succ skip => exact ih skip

@[simp] theorem lexemes_nil : lexemes [] = [] := rfl

theorem lexemes_cons_of_blank {c : Char} (hc : isBlank c = true) (cs : List Char) :
    lexemes (c :: cs) = lexemes cs := by
  rw [lexemes, lexemesFrom, if_pos hc]
  rfl

theorem lexemes_cons_of_not_blank {c : Char} (hc : isBlank c = false) (cs : List Char) :
    lexemes (c :: cs) =
      lexeme c cs :: lexemes (cs.drop ((lexeme c cs).text.length - 1)) := by
  rw [lexemes, lexemesFrom, if_neg (by simp [hc]), lexemesFrom_eq_drop]

theorem Lexeme.symbol?_ne_endOfInput {c : Char} {next : Option Char} {l : Lexeme}
    (h : symbol? c next = some l) : l.kind ≠ .endOfInput := by
  unfold symbol? at h
  split at h
  case h_2 | h_3 | h_4 =>
    split at h <;> (obtain rfl := Option.some.inj h; simp)
  case h_12 => simp at h
  all_goals obtain rfl := Option.some.inj h; simp

/-- No lexeme is the end of the input. -/
theorem lexeme_ne_endOfInput (c : Char) (cs : List Char) : (lexeme c cs).kind ≠ .endOfInput := by
  have hquoted : ∀ first close empty unclosed,
      (Lexeme.quotedName first close empty unclosed cs).kind ≠ .endOfInput := by
    intro first close empty unclosed
    rw [Lexeme.quotedName]
    split <;> simp
  rw [lexeme]
  split
  · simp [Lexeme.lineComment]
  split
  · rw [Lexeme.blockComment]
    split <;> simp
  split
  · rw [Lexeme.string]
    split <;> simp
  split
  · exact hquoted _ _ _ _
  split
  · exact hquoted _ _ _ _
  split
  · next hsymbol => exact Lexeme.symbol?_ne_endOfInput hsymbol
  split
  · rw [Lexeme.number]
    simp only []
    split <;> simp
  split
  · rw [Lexeme.word]
    split <;> simp
  · simp

/-! ## Spellings -/

/-- What follows is nothing, or begins with a character of the class `p`. -/
def Before (p : Char → Bool) (rest : List Char) : Prop :=
  ∀ c, rest.head? = some c → p c = true

@[simp] theorem before_nil (p : Char → Bool) : Before p [] := by
  intro c h
  simp at h

@[simp] theorem before_cons {p : Char → Bool} {c : Char} {cs : List Char} :
    Before p (c :: cs) ↔ p c = true := by
  simp [Before]

theorem Before.mono {p q : Char → Bool} {rest : List Char} (h : Before p rest)
    (hpq : ∀ c, p c = true → q c = true) : Before q rest :=
  fun c hc => hpq c (h c hc)

/-- A text that is cut into the given lexemes before every character of the class `p` and
at the end. -/
def Spells (p : Char → Bool) (text : List Char) (ls : List Lexeme) : Prop :=
  ∀ rest, Before p rest → lexemes (text ++ rest) = ls ++ lexemes rest

theorem spells_nil (p : Char → Bool) : Spells p [] [] :=
  fun _ _ => rfl

theorem Spells.mono {p q : Char → Bool} {text : List Char} {ls : List Lexeme}
    (h : Spells q text ls) (hpq : ∀ c, p c = true → q c = true) : Spells p text ls :=
  fun rest hrest => h rest (hrest.mono hpq)

/-- Two spellings follow each other when the second begins as the first may be continued. -/
theorem Spells.append {p q : Char → Bool} {text text' : List Char} {ls ls' : List Lexeme}
    (h : Spells p text ls) (h' : Spells q text' ls')
    (hnext : ∀ rest, Before q rest → Before p (text' ++ rest)) :
    Spells q (text ++ text') (ls ++ ls') := by
  intro rest hrest
  rw [List.append_assoc, h _ (hnext rest hrest), h' rest hrest, List.append_assoc]

/-- A spelling follows another whose continuation its own first character admits. -/
theorem Spells.append_cons {p q : Char → Bool} {text text' : List Char} {c : Char}
    {ls ls' : List Lexeme} (h : Spells p text ls) (h' : Spells q (c :: text') ls')
    (hc : p c = true) : Spells q (text ++ c :: text') (ls ++ ls') :=
  h.append h' fun _ _ => by simpa using hc

theorem Spells.blank {p : Char → Bool} {text : List Char} {ls : List Lexeme} {c : Char}
    (hc : isBlank c = true) (h : Spells p text ls) : Spells p (c :: text) ls := by
  intro rest hrest
  rw [List.cons_append, lexemes_cons_of_blank hc, h rest hrest]

/-- One lexeme: the characters that `lexeme` takes are exactly the text. -/
theorem spells_one {p : Char → Bool} {c : Char} {cs : List Char} {l : Lexeme}
    (hc : isBlank c = false) (ht : l.text = c :: cs)
    (h : ∀ rest, Before p rest → lexeme c (cs ++ rest) = l) : Spells p (c :: cs) [l] := by
  intro rest hrest
  rw [List.cons_append, lexemes_cons_of_not_blank hc, h rest hrest, ht]
  simp

end FetchQuery
