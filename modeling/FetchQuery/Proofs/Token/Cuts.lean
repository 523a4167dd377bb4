import FetchQuery.Proofs.Token.Spelling
import Mathlib.Data.List.TakeWhile

/-!
# Where a lexeme ends

A lexeme is a run of the characters it is cut from, beginning with the first of them. Which run
it is may depend on what follows: `<` is another sign before `=`, a word goes on before a letter,
a closing delimiter may be doubled. A line feed behind the run changes nothing of this, and neither
does the end of the text. Only comments and quotations that nothing closes reach to the end of
the text wherever that is (`Lexeme.isOpen`).

`Cut f first cs` says this of a function `f` that cuts a lexeme from `cs`, when the characters
`first` have already been taken. It is shown for each kind of lexeme, and put together for the
function that chooses among them (`cut_lexeme`). So a text can be taken apart lexeme by lexeme
(`text_induction`).
-/

set_option autoImplicit false

namespace FetchQuery

open Text

/-- The line feed. -/
def isFeed (c : Char) : Bool :=
  c == '\n'

theorem eq_of_isFeed {c : Char} (h : isFeed c = true) : c = '\n' :=
  eq_of_beq h

theorem isBlank_of_isFeed {c : Char} (h : isFeed c = true) : isBlank c = true := by
  obtain rfl := eq_of_isFeed h
  decide

theorem endsPhrase_of_isFeed {c : Char} (h : isFeed c = true) : endsPhrase c = true :=
  endsPhrase_of_isBlank (isBlank_of_isFeed h)

theorem endsName_of_isFeed {c : Char} (h : isFeed c = true) : endsName c = true :=
  endsName_of_endsPhrase (endsPhrase_of_isFeed h)

/-- A run that was taken is taken again in front of what does not continue it. -/
theorem takeWhile_takeWhile_append {p q : Char → Bool} (cs : List Char) {rest : List Char}
    (hrest : Before q rest) (hq : ∀ c, q c = true → p c = false) :
    (cs.takeWhile p ++ rest).takeWhile p = cs.takeWhile p :=
  takeWhile_append_of_before (fun _ hc => List.mem_takeWhile_imp hc) hrest hq

/-- Whether a lexeme is a comment or a quotation that nothing closes. -/
def Lexeme.isOpen (l : Lexeme) : Bool :=
  l.kind == .fault .openBlockComment || l.kind == .fault .openString ||
    l.kind == .fault .openBracket || l.kind == .fault .openQuote

/-- The lexeme `l` takes the characters `own`, behind those in `first`, and leaves `rest`. It
leaves nothing if it is open; and `f` cuts it again from its own characters, in front of any line
feed unless it is open. -/
structure CutsOff (f : List Char → Lexeme) (first own rest : List Char) (l : Lexeme) : Prop where
  text_eq : l.text = first ++ own
  rest_eq : l.isOpen = true → rest = []
  again : ∀ more, Before isFeed more → (l.isOpen = true → more = []) → f (own ++ more) = l

/-- What `f` cuts from `cs` is a run at the front, which a line feed ends as well. -/
def Cut (f : List Char → Lexeme) (first cs : List Char) : Prop :=
  ∃ own rest, cs = own ++ rest ∧ CutsOff f first own rest (f cs)

section Shapes

variable {f g : List Char → Lexeme} {first cs : List Char} {l : Lexeme}

/-- A lexeme that takes no further character. -/
theorem cut_none (hf : f cs = l) (htext : l.text = first) (hopen : l.isOpen = false)
    (hagain : ∀ more, Before isFeed more → f more = l) : Cut f first cs := by
  refine ⟨[], cs, rfl, ?_⟩
  rw [hf]
  refine ⟨by rw [htext, List.append_nil], ?_, ?_⟩
  · intro h
    rw [hopen] at h
    exact absurd h Bool.false_ne_true
  · intro more hmore _
    exact hagain more hmore

/-- A lexeme that takes all characters, since nothing closes it. -/
theorem cut_all (hf : f cs = l) (htext : l.text = first ++ cs) (hopen : l.isOpen = true) :
    Cut f first cs := by
  refine ⟨cs, [], (List.append_nil cs).symm, ?_⟩
  rw [hf]
  refine ⟨htext, fun _ => rfl, ?_⟩
  intro more _ hmore
  rw [hmore hopen, List.append_nil]
  exact hf

/-- A lexeme that takes the next character and goes on by `g`. -/
theorem Cut.cons {d : Char} (hf : ∀ cs, f (d :: cs) = g cs) (h : Cut g (first ++ [d]) cs) :
    Cut f first (d :: cs) := by
  obtain ⟨own, rest, rfl, hcut⟩ := h
  refine ⟨d :: own, rest, rfl, ?_⟩
  rw [hf]
  refine ⟨?_, hcut.rest_eq, ?_⟩
  · rw [hcut.text_eq, List.append_assoc]
    rfl
  · intro more hmore hopen
    rw [List.cons_append, hf]
    exact hcut.again more hmore hopen

theorem Cut.congr (hf : ∀ cs, f cs = g cs) (h : Cut g first cs) : Cut f first cs := by
  obtain rfl : f = g := funext hf
  exact h

end Shapes

namespace Lexeme

/-! ## Comments -/

theorem cut_lineComment (cs : List Char) : Cut lineComment ['-', '-'] cs := by
  refine ⟨cs.takeWhile (· != '\n'), cs.dropWhile (· != '\n'), ?_, rfl, ?_, ?_⟩
  · exact List.takeWhile_append_dropWhile.symm
  · intro h
    exact absurd h (by simp [isOpen, lineComment])
  · intro more hmore _
    -- the line feed is what ends the comment
    have htake : (cs.takeWhile (· != '\n') ++ more).takeWhile (· != '\n') =
        cs.takeWhile (· != '\n') := by
      refine takeWhile_takeWhile_append cs hmore ?_
      intro c hc
      rw [eq_of_isFeed hc]
      decide
    simp only [lineComment, htake]

/-- The body of a closed comment is read again whatever follows the comment. -/
theorem commentBody?_append {cs body : List Char} (h : commentBody? cs = some body)
    (more : List Char) : commentBody? (body ++ '*' :: '/' :: more) = some body := by
  fun_induction commentBody? cs generalizing body with
  | case1 => simp at h
  | case2 c cs hc =>
    obtain rfl : [] = body := by simpa using h
    simp [commentBody?]
  | case3 c cs hc ih =>
    obtain ⟨tail, htail, rfl⟩ := Option.map_eq_some_iff.1 h
    -- the character in front of the body's tail begins no `*/` there, so it begins none here
    have hhead : (tail ++ '*' :: '/' :: more).head? = some '/' → cs.head? = some '/' := by
      obtain ⟨rest, rfl⟩ := exists_of_commentBody? cs tail htail
      cases tail with
      | nil => simp
      | cons d tail => simp
    have hc' : ¬(c = '*' ∧ (tail ++ '*' :: '/' :: more).head? = some '/') :=
      fun h => hc ⟨h.1, hhead h.2⟩
    rw [List.cons_append, commentBody?, if_neg hc', ih htail]
    rfl

theorem cut_blockComment (cs : List Char) : Cut blockComment ['/', '*'] cs := by
  cases hbody : commentBody? cs with
  | none => exact cut_all (by rw [blockComment, hbody]) rfl rfl
  | some body =>
    obtain ⟨rest, hcs⟩ := exists_of_commentBody? cs body hbody
    refine ⟨body ++ ['*', '/'], rest, by simp [hcs], ?_⟩
    have hcut : blockComment cs =
        ⟨.comment (String.ofList (trimChars body)), '/' :: '*' :: (body ++ ['*', '/'])⟩ := by
      rw [blockComment, hbody]
    rw [hcut]
    refine ⟨rfl, ?_, ?_⟩
    · intro h
      exact absurd h (by simp [isOpen])
    · intro more _ _
      have hagain := commentBody?_append hbody more
      rw [List.append_assoc]
      rw [blockComment, List.cons_append, List.singleton_append, hagain]

/-! ## Quotations -/

/-- A closed quotation is cut alike in front of every character but its closing delimiter. -/
theorem cut_of_readDoubled {f : List Char → Lexeme} {first close : Char}
    {cs content : List Char} {l : Lexeme} (hread : readDoubled? close cs = some content)
    (hf : ∀ cs, readDoubled? close cs = some content → f cs = l)
    (htext : l.text = delimited first close content) (hopen : l.isOpen = false)
    (hclose : isFeed close = false) : Cut f [first] cs := by
  obtain ⟨rest, rfl, -⟩ := exists_of_readDoubled? close cs content hread
  refine ⟨double close content ++ [close], rest, by simp, ?_⟩
  rw [hf _ hread]
  refine ⟨htext, ?_, ?_⟩
  · intro h
    rw [hopen] at h
    exact absurd h Bool.false_ne_true
  · intro more hmore _
    apply hf
    rw [List.append_assoc]
    exact readDoubled?_double_append close content more (hmore.head?_ne hclose)

theorem cut_string (cs : List Char) : Cut string ['\''] cs := by
  cases hread : readDoubled? '\'' cs with
  | none => exact cut_all (by rw [string, hread]) rfl rfl
  | some content =>
    refine cut_of_readDoubled (l := ⟨.string (String.ofList content), delimited '\'' '\'' content⟩)
      hread ?_ rfl rfl (by decide)
    intro cs hcs
    rw [string, hcs]

theorem cut_quotedName {first close : Char} {empty unclosed : ScanFault}
    (hclose : isFeed close = false)
    (hempty : isOpen ⟨.fault empty, [first, close]⟩ = false)
    (hunclosed : ∀ cs, isOpen ⟨.fault unclosed, cs⟩ = true) (cs : List Char) :
    Cut (quotedName first close empty unclosed) [first] cs := by
  cases hread : readDoubled? close cs with
  | none =>
    refine cut_all (l := ⟨.fault unclosed, first :: cs⟩) ?_ rfl (hunclosed _)
    rw [quotedName, hread]
  | some content =>
    cases content with
    | nil =>
      refine cut_of_readDoubled hread ?_ rfl hempty hclose
      intro cs hcs
      rw [quotedName, hcs]
    | cons c content =>
      refine cut_of_readDoubled (l := ⟨.identifier (String.ofList (c :: content)),
        delimited first close (c :: content)⟩) hread ?_ rfl rfl hclose
      intro cs hcs
      rw [quotedName, hcs]

/-! ## Numbers and words -/

theorem digitsOf_isPrefix (s : List Char) : digitsOf s <+: s := by
  have hsplit : s.takeWhile Char.isDigit ++ s.drop (s.takeWhile Char.isDigit).length = s := by
    rw [← List.prefix_iff_eq_append]
    exact List.takeWhile_prefix _
  calc digitsOf s
      <+: s.takeWhile Char.isDigit ++ s.drop (s.takeWhile Char.isDigit).length :=
        (List.prefix_append_right_inj _).2 (fraction_isPrefix _)
    _ = s := hsplit

/-- A fraction is empty, or a point with digits behind it. -/
theorem fraction_cases (cs : List Char) :
    fraction cs = [] ∨
      ∃ places, fraction cs = '.' :: places ∧ places ≠ [] ∧ ∀ d ∈ places, d.isDigit = true := by
  unfold fraction
  split
  · next d cs =>
    by_cases hd : d.isDigit = true
    · right
      refine ⟨(d :: cs).takeWhile Char.isDigit, if_pos hd, ?_, ?_⟩
      · rw [List.takeWhile_cons_of_pos hd]
        exact List.cons_ne_nil _ _
      · intro e he
        exact List.mem_takeWhile_imp he
    · left
      rw [if_neg hd]
  · left
    rfl

/-- Digits are taken again in front of whatever continues no number. -/
theorem digitsOf_append {s rest : List Char} (h : Before endsDigits rest) :
    digitsOf (digitsOf s ++ rest) = digitsOf s := by
  have hwhole : ∀ d ∈ s.takeWhile Char.isDigit, d.isDigit = true := fun d hd =>
    List.mem_takeWhile_imp hd
  have hself : digitsOf s = s.takeWhile Char.isDigit ++
      fraction (s.drop (s.takeWhile Char.isDigit).length) := rfl
  rw [hself]
  rcases fraction_cases (s.drop (s.takeWhile Char.isDigit).length) with
    hnone | ⟨places, hsome, hne, hplaces⟩
  · rw [hnone, List.append_nil]
    exact digitsOf_whole hwhole h
  · rw [hsome, List.append_assoc, List.cons_append]
    exact digitsOf_places hwhole h hplaces hne

theorem isDigit_of_isWordStart {c : Char} (h : isWordStart c = true) : c.isDigit = false := by
  cases hd : c.isDigit with
  | false => rfl
  | true =>
    -- the digits lie in front of all letters
    obtain ⟨runs, hruns⟩ := letterRuns_eq
    have hrange := isDigit_toNat hd
    have hletter : isLetter c = false := by
      rw [isLetter, hruns, inRuns, if_pos (by omega)]
    have hunderscore : c ≠ '_' := by
      rintro rfl
      exact absurd hd (by decide)
    simp [isWordStart, hletter, hunderscore] at h

theorem endsDigits_of_isWordStart {c : Char} (h : isWordStart c = true) :
    endsDigits c = true := by
  have hpoint : c ≠ '.' := by
    rintro rfl
    exact absurd h (by decide)
  simp [endsDigits, isDigit_of_isWordStart h, hpoint]

theorem isWordPart_of_isFeed {c : Char} (h : isFeed c = true) : isWordPart c = false :=
  isWordPart_of_isBlank (isBlank_of_isFeed h)

theorem cut_number {c : Char} (hc : c.isDigit = true) (cs : List Char) :
    Cut (number c) [c] cs := by
  obtain ⟨own, hown⟩ : ∃ own, digitsOf (c :: cs) = c :: own := by
    rw [digitsOf, List.takeWhile_cons_of_pos hc]
    exact ⟨_, rfl⟩
  obtain ⟨rest, hrest⟩ := digitsOf_isPrefix (c :: cs)
  rw [hown] at hrest
  obtain rfl : own ++ rest = cs := (List.cons.inj hrest).2
  -- the digits are taken again in front of whatever continues no number
  have hagain : ∀ more, Before endsDigits more → digitsOf (c :: own ++ more) = c :: own := by
    intro more hmore
    rw [← hown]
    exact digitsOf_append hmore
  cases hword : rest.head?.any isWordStart with
  | false =>
    refine ⟨own, rest, rfl, ?_⟩
    rw [number_of_digits hown, hword, if_neg Bool.false_ne_true]
    refine ⟨rfl, fun h => absurd h (by simp [isOpen]), ?_⟩
    intro more hmore _
    have hends : Before endsDigits more := hmore.mono fun d hd => by rw [eq_of_isFeed hd]; decide
    have hstart := any_isWordStart_of_before (hmore.mono fun _ => endsName_of_isFeed)
    rw [number_of_digits (hagain more hends), hstart, if_neg Bool.false_ne_true]
  | true =>
    obtain ⟨d, tail, rfl⟩ : ∃ d tail, rest = d :: tail :=
      List.exists_cons_of_ne_nil (by rintro rfl; exact absurd hword (by decide))
    have hd : isWordStart d = true := hword
    -- the word behind the digits belongs to the lexeme
    refine ⟨own ++ (d :: tail).takeWhile isWordPart, (d :: tail).dropWhile isWordPart, ?_, ?_⟩
    · rw [List.append_assoc, List.takeWhile_append_dropWhile]
    rw [number_of_digits hown, if_pos hword]
    refine ⟨rfl, fun h => absurd h (by simp [isOpen, ofBadNumber]), ?_⟩
    intro more hmore _
    have htake := takeWhile_takeWhile_append (d :: tail) hmore fun _ => isWordPart_of_isFeed
    have hcons : (d :: tail).takeWhile isWordPart = d :: tail.takeWhile isWordPart :=
      List.takeWhile_cons_of_pos (isWordPart_of_isWordStart hd)
    rw [List.append_assoc, number_of_digits (hagain _ ?_), if_pos ?_, htake]
    · rw [hcons]
      exact hd
    · rw [hcons]
      exact before_cons.2 (endsDigits_of_isWordStart hd)

theorem isOpen_ofWord (cs : List Char) : (ofWord cs).isOpen = false := by
  rw [ofWord]
  split <;> rfl

theorem cut_word {c : Char} (hc : isWordStart c = true) (cs : List Char) :
    Cut (word c) [c] cs := by
  have hcons : ∀ cs, (c :: cs).takeWhile isWordPart = c :: cs.takeWhile isWordPart := fun cs =>
    List.takeWhile_cons_of_pos (isWordPart_of_isWordStart hc)
  refine ⟨cs.takeWhile isWordPart, cs.dropWhile isWordPart, ?_, ?_⟩
  · exact List.takeWhile_append_dropWhile.symm
  rw [word_eq, hcons]
  refine ⟨text_ofWord _, ?_, ?_⟩
  · intro h
    rw [isOpen_ofWord] at h
    exact absurd h Bool.false_ne_true
  · intro more hmore _
    rw [word_eq, hcons, takeWhile_takeWhile_append cs hmore fun _ => isWordPart_of_isFeed]

/-! ## Signs -/

/-- A sign of two characters takes the second one. Any other is the same before a line feed. -/
theorem symbol?_cases {c : Char} {next : Option Char} {l : Lexeme} (h : symbol? c next = some l) :
    l.isOpen = false ∧
      (l.text = [c] ∧ symbol? c none = some l ∧ symbol? c (some '\n') = some l ∨
        ∃ d, next = some d ∧ l.text = [c, d]) := by
  unfold symbol? at h
  split at h
  case h_2 | h_3 | h_4 =>
    split at h <;> obtain rfl := Option.some.inj h
    all_goals first
      | exact ⟨rfl, .inr ⟨_, rfl, rfl⟩⟩
      | exact ⟨rfl, .inl ⟨rfl, rfl, rfl⟩⟩
  case h_12 => simp at h
  all_goals
    obtain rfl := Option.some.inj h
    exact ⟨rfl, .inl ⟨rfl, rfl, rfl⟩⟩

/-- Whether a character begins a sign does not depend on the next one. -/
theorem symbol?_eq_none {c : Char} {next : Option Char} (h : symbol? c next = none)
    (next' : Option Char) : symbol? c next' = none := by
  unfold symbol? at h
  split at h
  case h_2 | h_3 | h_4 => split at h <;> simp at h
  case h_12 =>
    unfold symbol?
    split
    all_goals first | rfl | exact absurd rfl (by assumption)
  all_goals simp at h

end Lexeme

theorem lexeme_doubleQuote (cs : List Char) :
    lexeme '"' cs = Lexeme.quotedName '"' '"' .emptyQuotes .openQuote cs := by
  simp [lexeme]

section Choice

variable {c : Char} {cs : List Char}

theorem lexeme_of_symbol {l : Lexeme} (h : Lexeme.symbol? c cs.head? = some l)
    (hcomment : c = '-' → cs.head? ≠ some '-') : lexeme c cs = l := by
  have hne : ∀ d, Lexeme.symbol? d cs.head? = none → c ≠ d := by
    rintro d hd rfl
    rw [h] at hd
    exact absurd hd (by simp)
  have h₁ : ¬(c = '-' ∧ cs.head? = some '-') := fun hc => hcomment hc.1 hc.2
  have h₂ : ¬(c = '/' ∧ cs.head? = some '*') := fun hc => hne '/' rfl hc.1
  rw [lexeme, if_neg h₁, if_neg h₂, if_neg (hne _ rfl), if_neg (hne _ rfl), if_neg (hne _ rfl), h]

theorem lexeme_of_symbol?_eq_none (h : Lexeme.symbol? c cs.head? = none)
    (hcomment : c = '/' → cs.head? ≠ some '*') (hstring : c ≠ '\'') (hbracket : c ≠ '[')
    (hquote : c ≠ '"') :
    lexeme c cs =
      if c.isDigit then Lexeme.number c cs
      else if isWordStart c then Lexeme.word c cs
      else ⟨.fault (.strayCharacter c), [c]⟩ := by
  have h₁ : ¬(c = '-' ∧ cs.head? = some '-') := by
    rintro ⟨rfl, -⟩
    exact absurd h (by simp [Lexeme.symbol?])
  have h₂ : ¬(c = '/' ∧ cs.head? = some '*') := fun hc => hcomment hc.1 hc.2
  rw [lexeme, if_neg h₁, if_neg h₂, if_neg hstring, if_neg hbracket, if_neg hquote, h]

theorem cut_symbol {l : Lexeme} (h : Lexeme.symbol? c cs.head? = some l)
    (hcomment : c = '-' → cs.head? ≠ some '-') : Cut (lexeme c) [c] cs := by
  obtain ⟨hopen, ⟨htext, hend, hfeed⟩ | ⟨d, hd, htext⟩⟩ := Lexeme.symbol?_cases h
  · refine cut_none (lexeme_of_symbol h hcomment) htext hopen ?_
    intro more hmore
    refine lexeme_of_symbol ?_ fun _ => hmore.head?_ne (by decide)
    cases more with
    | nil => exact hend
    | cons d more =>
      rw [List.head?_cons, eq_of_isFeed (before_cons.1 hmore)]
      exact hfeed
  · -- the second character decided for this sign, whatever follows it
    obtain ⟨rest, rfl⟩ := List.head?_eq_some_iff.1 hd
    refine Cut.cons (g := fun _ => l) (fun cs => lexeme_of_symbol h ?_) ?_
    · exact hcomment
    · exact cut_none rfl htext hopen fun _ _ => rfl

/-- Every lexeme is a run at the front of the text, and is cut again in front of a line feed. -/
theorem cut_lexeme (c : Char) (cs : List Char) : Cut (lexeme c) [c] cs := by
  by_cases hline : c = '-' ∧ cs.head? = some '-'
  · obtain ⟨rfl, hcs⟩ := hline
    obtain ⟨rest, rfl⟩ := List.head?_eq_some_iff.1 hcs
    exact Cut.cons (fun cs => by simp [lexeme]) (Lexeme.cut_lineComment rest)
  by_cases hblock : c = '/' ∧ cs.head? = some '*'
  · obtain ⟨rfl, hcs⟩ := hblock
    obtain ⟨rest, rfl⟩ := List.head?_eq_some_iff.1 hcs
    exact Cut.cons (fun cs => by simp [lexeme]) (Lexeme.cut_blockComment rest)
  by_cases hstring : c = '\''
  · subst hstring
    exact (Lexeme.cut_string cs).congr lexeme_quote
  by_cases hbracket : c = '['
  · subst hbracket
    exact (Lexeme.cut_quotedName (by decide) rfl (fun _ => rfl) cs).congr lexeme_bracket
  by_cases hquote : c = '"'
  · subst hquote
    exact (Lexeme.cut_quotedName (by decide) rfl (fun _ => rfl) cs).congr lexeme_doubleQuote
  cases hsymbol : Lexeme.symbol? c cs.head? with
  | some l => exact cut_symbol hsymbol fun hc hcs => hline ⟨hc, hcs⟩
  | none =>
    -- whatever follows, the character begins no sign
    have hlexeme : ∀ more, (c = '/' → more.head? ≠ some '*') →
        lexeme c more =
          if c.isDigit then Lexeme.number c more
          else if isWordStart c then Lexeme.word c more
          else ⟨.fault (.strayCharacter c), [c]⟩ := fun more hmore =>
      lexeme_of_symbol?_eq_none (Lexeme.symbol?_eq_none hsymbol _) hmore hstring hbracket hquote
    by_cases hdigit : c.isDigit = true
    · refine (Lexeme.cut_number hdigit cs).congr fun cs => ?_
      rw [hlexeme cs, if_pos hdigit]
      rintro rfl
      exact absurd hdigit (by decide)
    by_cases hword : isWordStart c = true
    · refine (Lexeme.cut_word hword cs).congr fun cs => ?_
      rw [hlexeme cs, if_neg hdigit, if_pos hword]
      rintro rfl
      exact absurd hword (by decide)
    · have hstray : ∀ more, (c = '/' → more.head? ≠ some '*') →
          lexeme c more = ⟨.fault (.strayCharacter c), [c]⟩ := by
        intro more hmore
        rw [hlexeme more hmore, if_neg hdigit, if_neg hword]
      refine cut_none (hstray cs fun hc hcs => hblock ⟨hc, hcs⟩) rfl rfl ?_
      intro more hmore
      exact hstray more fun _ => hmore.head?_ne (by decide)

end Choice

/-- A text is blank, or it is a lexeme behind blanks and in front of another text. -/
theorem text_induction {motive : List Char → Prop}
    (blank : ∀ blanks, (∀ c ∈ blanks, isBlank c = true) → motive blanks)
    (cons : ∀ blanks c own rest, (∀ c ∈ blanks, isBlank c = true) → isBlank c = false →
      CutsOff (lexeme c) [c] own rest (lexeme c (own ++ rest)) → motive rest →
      motive (blanks ++ c :: (own ++ rest)))
    (cs : List Char) : motive cs := by
  induction hn : cs.length using Nat.strong_induction_on generalizing cs with
  | _ n ih =>
    subst hn
    have hblanks : ∀ c ∈ cs.takeWhile isBlank, isBlank c = true := fun c hc =>
      List.mem_takeWhile_imp hc
    have hsplit : cs.takeWhile isBlank ++ cs.dropWhile isBlank = cs :=
      List.takeWhile_append_dropWhile
    cases hdrop : cs.dropWhile isBlank with
    | nil =>
      rw [hdrop, List.append_nil] at hsplit
      rw [← hsplit]
      exact blank _ hblanks
    | cons c ds =>
      rw [hdrop] at hsplit
      have hc : isBlank c = false := by
        have hhead := List.head?_dropWhile_not isBlank cs
        rw [hdrop] at hhead
        simpa using hhead
      obtain ⟨own, rest, rfl, hcut⟩ := cut_lexeme c ds
      rw [← hsplit]
      refine cons _ c own rest hblanks hc hcut (ih rest.length ?_ rest rfl)
      rw [← hsplit]
      simp only [List.length_append, List.length_cons]
      omega

end FetchQuery
