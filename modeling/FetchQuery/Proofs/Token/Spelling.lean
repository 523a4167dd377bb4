import FetchQuery.Literal
import FetchQuery.Operator
import FetchQuery.Sql.Render
import FetchQuery.Proofs.Numbers
import FetchQuery.Proofs.Token.Lexemes

/-!
# Spellings of single tokens

Every kind of token that is written in SQL text is cut out again: reserved words
(`spells_keyword`), names with and without brackets (`spells_name`), string literals
(`spells_string`), numbers (`spells_digits`) and signs. What may follow is a class of
characters: a name or a reserved word ends before a blank, a comma, a point or a
parenthesis, a number only before a blank, a comma or a closing parenthesis.
-/

set_option autoImplicit false

namespace FetchQuery

open Text

/-- The characters that may follow any token: blanks, commas, closing parentheses. -/
def endsPhrase (c : Char) : Bool :=
  isBlank c || c == ',' || c == ')'

/-- The characters that may follow a name: also points and opening parentheses. -/
def endsName (c : Char) : Bool :=
  endsPhrase c || c == '.' || c == '('

/-- Every character: what follows has no influence. -/
def anyChar (_ : Char) : Bool :=
  true

theorem endsPhrase_of_isBlank {c : Char} (h : isBlank c = true) : endsPhrase c = true := by
  simp [endsPhrase, h]

theorem endsName_of_endsPhrase {c : Char} (h : endsPhrase c = true) : endsName c = true := by
  simp [endsName, h]

theorem isWordPart_of_endsName {c : Char} (h : endsName c = true) : isWordPart c = false := by
  simp only [endsName, endsPhrase, Bool.or_eq_true, beq_iff_eq] at h
  rcases h with (((h | rfl) | rfl) | rfl) | rfl
  · exact isWordPart_of_isBlank h
  all_goals decide

theorem isWordStart_of_endsName {c : Char} (h : endsName c = true) : isWordStart c = false := by
  have hp := isWordPart_of_endsName h
  simp only [isWordPart, Bool.or_eq_false_iff] at hp
  simp only [isWordStart, hp.1.1, hp.2, Bool.or_self]

theorem isDigit_of_endsName {c : Char} (h : endsName c = true) : c.isDigit = false := by
  cases hd : c.isDigit with
  | false => rfl
  | true =>
    have hw : isWordPart c = true := isWordPart_of_basic (by simp [isBasic, Char.isAlphanum, hd])
    rw [isWordPart_of_endsName h] at hw
    exact absurd hw Bool.false_ne_true

theorem Before.head?_ne {p : Char → Bool} {rest : List Char} (h : Before p rest) {d : Char}
    (hd : p d = false) : rest.head? ≠ some d :=
  fun hr => ne_of_class (h d hr) hd rfl

/-- A run of characters of a class is taken exactly when what follows is of another class. -/
theorem takeWhile_append_of_before {p q : Char → Bool} {cs rest : List Char}
    (hcs : ∀ c ∈ cs, p c = true) (hrest : Before q rest) (hq : ∀ c, q c = true → p c = false) :
    (cs ++ rest).takeWhile p = cs := by
  rw [List.takeWhile_append_of_pos hcs]
  cases rest with
  | nil => simp
  | cons c rest =>
    have hc : p c = false := hq c (by simpa using hrest)
    rw [List.takeWhile_cons_of_neg (by simp [hc]), List.append_nil]

/-! ## Words -/

namespace Lexeme

/-- The lexeme of a word. -/
def ofWord (cs : List Char) : Lexeme :=
  match Keyword.ofWord? (String.ofList cs) with
  | some k => ⟨.keyword k, cs⟩
  | none => ⟨.identifier (String.ofList cs), cs⟩

/-- The lexeme of a reserved word in upper case. -/
def ofKeyword (k : Keyword) : Lexeme :=
  ⟨.keyword k, k.spelling.toList⟩

/-- The lexeme of a name as SQL text writes it. The empty name has none: its brackets are a
fault. -/
def ofName (name : String) : Lexeme :=
  if name = "" then ⟨.fault .emptyBrackets, ['[', ']']⟩
  else ⟨.identifier name, (Sql.quoteName name).toList⟩

theorem ofName_kind {name : String} (h : name ≠ "") : (ofName name).kind = .identifier name := by
  rw [ofName, if_neg h]

/-- A name is taken for nothing but an identifier or a fault. -/
theorem kind_ofName_ne (name : String) {k : TokenKind} (hname : ∀ n, .identifier n ≠ k)
    (hfault : ∀ f, .fault f ≠ k) : (ofName name).kind ≠ k := by
  rw [ofName]
  split
  · exact hfault _
  · exact hname name

/-- The lexeme of a string literal. -/
def ofString (s : String) : Lexeme :=
  ⟨.string s, delimited '\'' '\'' s.toList⟩

/-- The lexeme of a number without sign. -/
def ofDigits (cs : List Char) : Lexeme :=
  ⟨.number (String.ofList cs), cs⟩

@[simp] theorem kind_ofKeyword (k : Keyword) : (ofKeyword k).kind = .keyword k := rfl

@[simp] theorem kind_ofString (s : String) : (ofString s).kind = .string s := rfl

@[simp] theorem kind_ofDigits (cs : List Char) :
    (ofDigits cs).kind = .number (String.ofList cs) := rfl

theorem text_ofWord (cs : List Char) : (ofWord cs).text = cs := by
  rw [ofWord]
  split <;> rfl

theorem word_eq (c : Char) (cs : List Char) :
    word c cs = ofWord ((c :: cs).takeWhile isWordPart) := by
  simp only [word]
  unfold ofWord
  cases Keyword.ofWord? (String.ofList ((c :: cs).takeWhile isWordPart)) <;> rfl

theorem symbol?_of_basic {c : Char} (h : isBasic c = true) (next : Option Char) :
    symbol? c next = none := by
  unfold symbol?
  split
  all_goals first | rfl | exact absurd h (by decide)

end Lexeme

/-- Behind a letter, a digit or an underscore comes no comment, quotation or sign. -/
theorem lexeme_of_basic {c : Char} (h : isBasic c = true) (cs : List Char) :
    lexeme c cs =
      if c.isDigit then Lexeme.number c cs
      else if isWordStart c then Lexeme.word c cs
      else ⟨.fault (.strayCharacter c), [c]⟩ := by
  have h₁ : c ≠ '-' := ne_of_class h (by decide)
  have h₂ : c ≠ '/' := ne_of_class h (by decide)
  have h₃ : c ≠ '\'' := ne_of_class h (by decide)
  have h₄ : c ≠ '[' := ne_of_class h (by decide)
  have h₅ : c ≠ '"' := ne_of_class h (by decide)
  simp [lexeme, h₁, h₂, h₃, h₄, h₅, Lexeme.symbol?_of_basic h]

/-- The characters that a name may begin with. -/
theorem isBasic_of_letter {c : Char} (hc : (c.isAlpha || c == '_') = true) : isBasic c = true := by
  simp only [isBasic, Char.isAlphanum, Bool.or_eq_true] at hc ⊢
  rcases hc with hc | hc
  · exact Or.inl (Or.inl hc)
  · exact Or.inr hc

/-- A letter or an underscore begins a word, which goes on as far as it can. -/
theorem lexeme_of_letter {c : Char} (hc : (c.isAlpha || c == '_') = true) (cs : List Char) :
    lexeme c cs = Lexeme.ofWord ((c :: cs).takeWhile isWordPart) := by
  -- no number begins with a letter or an underscore
  have hdigit : c.isDigit = false := by
    simp only [Bool.or_eq_true, beq_iff_eq] at hc
    rcases hc with hc | rfl
    · have hr := isAlpha_toNat hc
      cases hd : c.isDigit with
      | false => rfl
      | true =>
        have := isDigit_toNat hd
        omega
    · decide
  rw [lexeme_of_basic (isBasic_of_letter hc), if_neg (by simp [hdigit]),
    if_pos (isWordStart_of_basic hc), Lexeme.word_eq]

/-- Words of basic characters are cut out before every character that ends a name. -/
theorem spells_word {c : Char} {cs : List Char} (hc : (c.isAlpha || c == '_') = true)
    (hcs : ∀ d ∈ cs, isBasic d = true) : Spells endsName (c :: cs) [Lexeme.ofWord (c :: cs)] := by
  apply spells_one (isBlank_of_basic (isBasic_of_letter hc)) (Lexeme.text_ofWord _)
  intro rest hrest
  -- the word is cut where the class of `rest` begins
  have htake : (c :: (cs ++ rest)).takeWhile isWordPart = c :: cs := by
    rw [← List.cons_append]
    refine takeWhile_append_of_before ?_ hrest fun d => isWordPart_of_endsName
    intro d hd
    rcases List.mem_cons.1 hd with rfl | hd
    · exact isWordPart_of_basic (isBasic_of_letter hc)
    · exact isWordPart_of_basic (hcs d hd)
  rw [lexeme_of_letter hc, htake]

theorem Keyword.mem_all (k : Keyword) : k ∈ Keyword.all := by
  cases k <;> decide

/-- The spellings of reserved words are basic letters and stand for their words. -/
theorem ofWord?_spelling (k : Keyword) : Keyword.ofWord? k.spelling = some k :=
  (by decide +kernel : ∀ k ∈ Keyword.all, Keyword.ofWord? k.spelling = some k) k k.mem_all

theorem spelling_basic (k : Keyword) :
    ∃ c cs, k.spelling.toList = c :: cs ∧ (c.isAlpha || c == '_') = true ∧
      ∀ d ∈ cs, isBasic d = true := by
  have hhead := (by decide +kernel : ∀ k ∈ Keyword.all,
    k.spelling.toList.head?.any (fun c => c.isAlpha || c == '_') = true) k k.mem_all
  have htail := List.all_eq_true.1 ((by decide +kernel : ∀ k ∈ Keyword.all,
    k.spelling.toList.tail.all isBasic = true) k k.mem_all)
  cases hk : k.spelling.toList with
  | nil =>
    rw [hk] at hhead
    simp at hhead
  | cons c cs =>
    rw [hk] at hhead htail
    exact ⟨c, cs, rfl, by simpa using hhead, by simpa using htail⟩

theorem ofWord_spelling (k : Keyword) : Lexeme.ofWord k.spelling.toList = Lexeme.ofKeyword k := by
  simp only [Lexeme.ofWord, String.ofList_toList, ofWord?_spelling, Lexeme.ofKeyword]

/-- Reserved words are cut out before every character that ends a name. -/
theorem spells_keyword (k : Keyword) :
    Spells endsName k.spelling.toList [Lexeme.ofKeyword k] := by
  obtain ⟨c, cs, hk, hc, hcs⟩ := spelling_basic k
  rw [← ofWord_spelling, hk]
  exact spells_word hc hcs

theorem isPlainName_iff {cs : List Char} (h : Sql.isPlainName cs = true) :
    ∃ c ds, cs = c :: ds ∧ (c.isAlpha || c == '_') = true ∧ ∀ d ∈ ds, isBasic d = true := by
  cases cs with
  | nil => simp [Sql.isPlainName] at h
  | cons c ds =>
    rw [Sql.isPlainName, Bool.and_eq_true, List.all_eq_true] at h
    exact ⟨c, ds, rfl, h.1, h.2⟩

/-! ## Quotations -/

theorem lexeme_bracket (cs : List Char) :
    lexeme '[' cs = Lexeme.quotedName '[' ']' .emptyBrackets .openBracket cs := by
  simp [lexeme]

theorem lexeme_quote (cs : List Char) : lexeme '\'' cs = Lexeme.string cs := by
  simp [lexeme]

/-- Names are cut out before every character that ends a name, in brackets or not. -/
theorem spells_name (name : String) :
    Spells endsName (Sql.quoteName name).toList [Lexeme.ofName name] := by
  by_cases hplain : (Sql.isPlainName name.toList && (Keyword.ofWord? name).isNone) = true
  · rw [Bool.and_eq_true, Option.isNone_iff_eq_none] at hplain
    obtain ⟨c, ds, hname, hc, hds⟩ := isPlainName_iff hplain.1
    have hne : name ≠ "" := by
      rintro rfl
      simp at hname
    have hword : Lexeme.ofWord (c :: ds) = Lexeme.ofName name := by
      rw [Lexeme.ofWord, Lexeme.ofName, if_neg hne, ← hname, String.ofList_toList, hplain.2]
      simp [Sql.quoteName, hplain]
    rw [← hword, Sql.quoteName, if_pos (by simp [hplain]), hname]
    exact spells_word hc hds
  · -- in brackets only the character behind the closing one could still change the name
    have htext : (Sql.quoteName name).toList = '[' :: (double ']' name.toList ++ [']']) := by
      rw [Sql.quoteName, if_neg hplain, enclose, String.toList_ofList]
    rw [htext]
    have hread : ∀ rest, Before endsName rest →
        readDoubled? ']' (double ']' name.toList ++ [']'] ++ rest) = some name.toList := by
      intro rest hrest
      rw [List.append_assoc]
      exact readDoubled?_double_append ']' name.toList rest (hrest.head?_ne (by decide))
    by_cases hempty : name = ""
    · subst hempty
      apply spells_one (by decide) rfl
      intro rest hrest
      rw [lexeme_bracket, Lexeme.quotedName, hread rest hrest]
      rfl
    · apply spells_one (by decide) (by rw [Lexeme.ofName, if_neg hempty, htext])
      intro rest hrest
      rw [lexeme_bracket, Lexeme.quotedName, hread rest hrest, Lexeme.ofName, if_neg hempty, htext]
      have hne : name.toList ≠ [] := by
        simpa using hempty
      cases hl : name.toList with
      | nil => exact absurd hl hne
      | cons c cs =>
        simp only [Lexeme.delimited, ← hl, String.ofList_toList]

/-- String literals are cut out before every character that ends a name. -/
theorem spells_string (s : String) :
    Spells endsName (enclose '\'' '\'' s).toList [Lexeme.ofString s] := by
  rw [enclose, String.toList_ofList]
  apply spells_one (by decide) rfl
  intro rest hrest
  have hread : readDoubled? '\'' (double '\'' s.toList ++ ['\''] ++ rest) = some s.toList := by
    rw [List.append_assoc]
    exact readDoubled?_double_append '\'' s.toList rest (hrest.head?_ne (by decide))
  rw [lexeme_quote, Lexeme.string, hread]
  simp only [Lexeme.ofString, String.ofList_toList]

/-! ## Numbers -/

namespace Lexeme

/-- The digits at the front of a text, with a fraction or without. -/
def digitsOf (s : List Char) : List Char :=
  s.takeWhile Char.isDigit ++ fraction (s.drop (s.takeWhile Char.isDigit).length)

/-- The characters that continue no number: neither digits nor points. -/
def endsDigits (c : Char) : Bool :=
  !c.isDigit && c != '.'

theorem isDigit_of_endsDigits (c : Char) (h : endsDigits c = true) : c.isDigit = false := by
  rw [endsDigits, Bool.and_eq_true] at h
  simpa using h.1

theorem endsDigits_of_endsPhrase {c : Char} (h : endsPhrase c = true) : endsDigits c = true := by
  have hpoint : c ≠ '.' := ne_of_class h (by decide)
  simp [endsDigits, isDigit_of_endsName (endsName_of_endsPhrase h), hpoint]

section Digits

variable {whole places rest : List Char} (hwhole : ∀ d ∈ whole, d.isDigit = true)
  (hrest : Before endsDigits rest)

include hwhole hrest

theorem digitsOf_whole : digitsOf (whole ++ rest) = whole := by
  -- what follows a whole number is no point, so no fraction begins
  have hfraction : fraction rest = [] := by
    unfold fraction
    split
    · exact absurd (before_cons.1 hrest) (by decide)
    · rfl
  rw [digitsOf, takeWhile_append_of_before hwhole hrest isDigit_of_endsDigits, List.drop_left,
    hfraction, List.append_nil]

theorem digitsOf_places (hplaces : ∀ d ∈ places, d.isDigit = true) (hne : places ≠ []) :
    digitsOf (whole ++ '.' :: (places ++ rest)) = whole ++ '.' :: places := by
  -- the point ends the whole digits, and the digit behind it makes the places a fraction
  have htake : (whole ++ '.' :: (places ++ rest)).takeWhile Char.isDigit = whole := by
    rw [List.takeWhile_append_of_pos hwhole, List.takeWhile_cons_of_neg (by decide),
      List.append_nil]
  have hfraction : fraction ('.' :: (places ++ rest)) = '.' :: places := by
    have hrun : (places ++ rest).takeWhile Char.isDigit = places :=
      takeWhile_append_of_before hplaces hrest isDigit_of_endsDigits
    obtain ⟨d, ds, rfl⟩ := List.exists_cons_of_ne_nil hne
    rw [List.cons_append] at hrun ⊢
    rw [fraction, if_pos (hplaces d List.mem_cons_self), hrun]
  rw [digitsOf, htake, List.drop_left, hfraction]

end Digits

/-- The lexeme of a number that a word spoils. -/
def ofBadNumber (cs : List Char) : Lexeme :=
  ⟨.fault (.badNumber (String.ofList cs)), cs⟩

/-- What becomes of digits depends on whether a word follows them. -/
theorem number_of_digits {c : Char} {own rest : List Char}
    (hdigits : digitsOf (c :: own ++ rest) = c :: own) :
    number c (own ++ rest) =
      if rest.head?.any isWordStart then ofBadNumber (c :: own ++ rest.takeWhile isWordPart)
      else ofDigits (c :: own) := by
  have hdrop : (c :: (own ++ rest)).drop (c :: own).length = rest := by
    rw [← List.cons_append, List.drop_left]
  rw [List.cons_append, digitsOf] at hdigits
  simp only [number, hdigits, hdrop]
  rfl

theorem any_isWordStart_of_before {rest : List Char} (h : Before endsName rest) :
    rest.head?.any isWordStart = false := by
  cases rest with
  | nil => rfl
  | cons d rest => exact isWordStart_of_endsName (before_cons.1 h)

end Lexeme

/-- Numbers are cut out before blanks, commas and closing parentheses. -/
theorem spells_digits (mantissa scale : Nat) :
    Spells endsPhrase (Decimal.magnitudeChars mantissa scale)
      [Lexeme.ofDigits (Decimal.magnitudeChars mantissa scale)] := by
  obtain ⟨c, cs, hchars, hc⟩ := Decimal.head_magnitudeChars mantissa scale
  have hbasic : isBasic c = true := by simp [isBasic, Char.isAlphanum, hc]
  obtain ⟨p⟩ := Decimal.exists_magnitudeChars mantissa scale
  have hdigits : ∀ rest, Before endsPhrase rest → Lexeme.digitsOf
      (Decimal.magnitudeChars mantissa scale ++ rest) = Decimal.magnitudeChars mantissa scale := by
    intro rest hrest
    have hends := hrest.mono fun _ => Lexeme.endsDigits_of_endsPhrase
    rw [p.chars_eq]
    by_cases h0 : scale = 0
    · rw [if_pos h0]
      exact Lexeme.digitsOf_whole p.whole_digits hends
    · have hplaces : p.places ≠ [] := by
        intro h
        rw [← p.length_places, h] at h0
        exact h0 rfl
      rw [if_neg h0, List.append_assoc, List.cons_append]
      exact Lexeme.digitsOf_places p.whole_digits hends p.places_digits hplaces
  rw [hchars] at hdigits ⊢
  apply spells_one (isBlank_of_basic hbasic) rfl
  intro rest hrest
  -- a letter directly behind a number would be a fault
  have hstart := Lexeme.any_isWordStart_of_before (hrest.mono fun _ => endsName_of_endsPhrase)
  rw [lexeme_of_basic hbasic, if_pos hc, Lexeme.number_of_digits (hdigits rest hrest), hstart,
    if_neg Bool.false_ne_true]

/-! ## Signs -/

/-- The characters of a sign. -/
def Symbol.chars : Symbol → List Char
  | .equal => ['=']
  | .notEqual => ['<', '>']
  | .less => ['<']
  | .greater => ['>']
  | .lessEqual => ['<', '=']
  | .greaterEqual => ['>', '=']
  | .star => ['*']
  | .minus => ['-']
  | .comma => [',']
  | .dot => ['.']
  | .openParen => ['(']
  | .closeParen => [')']
  | .semicolon => [';']

/-- The lexeme of a sign. -/
def Lexeme.ofSymbol (s : Symbol) : Lexeme :=
  ⟨.symbol s, s.chars⟩

@[simp] theorem Lexeme.kind_ofSymbol (s : Symbol) : (Lexeme.ofSymbol s).kind = .symbol s := rfl

/-- The signs that are cut out whatever follows them. -/
def Symbol.isSingle : Symbol → Bool
  | .star | .comma | .dot | .openParen | .closeParen | .semicolon => true
  | _ => false

theorem spells_single {s : Symbol} (h : s.isSingle = true) :
    Spells anyChar s.chars [Lexeme.ofSymbol s] := by
  cases s with
  | star | comma | dot | openParen | closeParen | semicolon =>
    exact spells_one (by decide) rfl fun rest _ => rfl
  | _ => exact absurd h (by decide)

/-- A minus sign is cut out before a digit. -/
theorem spells_minus : Spells Char.isDigit ['-'] [Lexeme.ofSymbol .minus] := by
  apply spells_one (by decide) rfl
  intro rest hrest
  -- two hyphens would begin a comment
  have hne : rest.head? ≠ some '-' := hrest.head?_ne (by decide)
  simp [lexeme, hne, Lexeme.symbol?, Lexeme.ofSymbol, Symbol.chars]

/-- The sign of a comparison operator. -/
def Comparison.symbol : Comparison → Symbol
  | .eq => .equal
  | .ne => .notEqual
  | .lt => .less
  | .le => .lessEqual
  | .gt => .greater
  | .ge => .greaterEqual

theorem Comparison.toList_sql (op : Comparison) : op.sql.toList = op.symbol.chars := by
  cases op <;> decide

/-- Signs of comparison are cut out before a blank. -/
theorem spells_comparison (op : Comparison) :
    Spells isBlank op.sql.toList [Lexeme.ofSymbol op.symbol] := by
  rw [op.toList_sql]
  cases op with
  | eq | ne | le | ge => exact spells_one (by decide) rfl fun rest _ => rfl
  | lt | gt =>
    apply spells_one (by decide) rfl
    intro rest hrest
    -- these signs would be another one before `=` or `>`
    have h₁ : rest.head? ≠ some '=' := hrest.head?_ne (by decide)
    have h₂ : rest.head? ≠ some '>' := hrest.head?_ne (by decide)
    cases hh : rest.head? with
    | none => simp [lexeme, hh, Lexeme.symbol?, Lexeme.ofSymbol, Comparison.symbol, Symbol.chars]
    | some c =>
      have hc₁ : c ≠ '=' := fun hc => h₁ (by rw [hh, hc])
      have hc₂ : c ≠ '>' := fun hc => h₂ (by rw [hh, hc])
      simp [lexeme, hh, Lexeme.symbol?, Lexeme.ofSymbol, Comparison.symbol, Symbol.chars, hc₁, hc₂]

/-! ## Literals -/

/-- The lexemes of a literal: a negative number is a minus sign and a number. -/
def Literal.lexemes : Literal → List Lexeme
  | .text content => [Lexeme.ofString content]
  | .number value =>
    (if value.negative then [Lexeme.ofSymbol .minus] else []) ++
      [Lexeme.ofDigits (Decimal.magnitudeChars value.mantissa value.scale)]
  | .truth true => [Lexeme.ofKeyword .true]
  | .truth false => [Lexeme.ofKeyword .false]

/-- Literals are cut out before blanks, commas and closing parentheses. -/
theorem spells_literal (value : Literal) :
    Spells endsPhrase value.sql.toList value.lexemes := by
  cases value with
  | text content => exact (spells_string content).mono fun _ => endsName_of_endsPhrase
  | number value =>
    rw [Literal.sql, Decimal.text, String.toList_ofList, Decimal.chars, Literal.lexemes]
    obtain ⟨c, cs, hchars, hc⟩ := Decimal.head_magnitudeChars value.mantissa value.scale
    have hdigits := spells_digits value.mantissa value.scale
    cases value.negative with
    | false => exact hdigits
    | true =>
      rw [if_pos rfl, if_pos rfl]
      rw [hchars] at hdigits ⊢
      exact spells_minus.append_cons hdigits hc
  | truth value =>
    cases value with
    | true => exact (spells_keyword .true).mono fun _ => endsName_of_endsPhrase
    | false => exact (spells_keyword .false).mono fun _ => endsName_of_endsPhrase

end FetchQuery
