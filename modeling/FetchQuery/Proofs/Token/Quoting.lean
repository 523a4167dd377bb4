import FetchQuery.Proofs.Token.Spelling

/-!
# Quotations in context

Names and string literals are read back from how they are written, whatever they contain, as long as
what follows does not continue them. A bare name is continued by a character of a word, a name in
brackets by a closing bracket, a string literal by a quote. `leads_name_iff` and `leads_string_iff`
say that nothing else matters. Both rest on how doubled delimiters are read: inside a run they are
passed over in pairs (`readDoubled?_double`), so only a delimiter directly behind the run can be
taken for one of them (`readDoubled?_closed_iff`).
-/

set_option autoImplicit false

namespace FetchQuery

open Text

/-! ## Doubled delimiters -/

namespace Text

/-- Reading passes through what is written with doubled delimiters. -/
theorem readDoubled?_double (close : Char) (s rest : List Char) :
    readDoubled? close (double close s ++ rest) = (readDoubled? close rest).map (s ++ ·) := by
  induction s with
  | nil => simp [double]
  | cons c s ih =>
    by_cases hc : c = close
    · simp [double, hc, readDoubled?, ih, Function.comp_def]
    · rw [double, if_neg hc, List.cons_append]
      cases hnext : double close s ++ rest with
      | nil =>
        obtain ⟨-, rfl⟩ := List.append_eq_nil_iff.1 hnext
        simp [readDoubled?, hc]
      | cons d ds =>
        rw [readDoubled?, if_neg hc, ← hnext, ih]
        simp [Function.comp_def]

/-- A closed run is read for its content exactly if no further delimiter follows. -/
theorem readDoubled?_closed_iff {close : Char} {s rest : List Char} :
    readDoubled? close (double close s ++ close :: rest) = some s ↔
      rest.head? ≠ some close := by
  constructor
  · intro hread hhead
    obtain ⟨more, rfl⟩ := List.head?_eq_some_iff.1 hhead
    -- the two delimiters would stand for one behind the content
    rw [readDoubled?_double, readDoubled?, if_pos rfl, if_pos rfl, Option.map_map,
      Option.map_eq_some_iff] at hread
    obtain ⟨t, -, ht⟩ := hread
    simp at ht
  · exact readDoubled?_double_append close s rest

end Text

namespace Lexeme

theorem string_eq_iff {s : String} {cs : List Char} :
    string cs = ofString s ↔ readDoubled? '\'' cs = some s.toList := by
  rw [string]
  cases readDoubled? '\'' cs with
  | none => simp [ofString]
  | some content =>
    simp only [ofString, Lexeme.mk.injEq, TokenKind.string.injEq, Option.some.injEq]
    constructor
    · rintro ⟨rfl, -⟩
      rw [String.toList_ofList]
    · rintro rfl
      exact ⟨String.ofList_toList, rfl⟩

theorem quotedName_eq_iff {first close : Char} {empty unclosed : ScanFault} {name : String}
    (hname : name ≠ "") {cs : List Char} :
    quotedName first close empty unclosed cs =
        ⟨.identifier name, delimited first close name.toList⟩ ↔
      readDoubled? close cs = some name.toList := by
  rw [quotedName]
  cases readDoubled? close cs with
  | none => simp
  | some content =>
    cases content with
    | nil =>
      have hne : [] ≠ name.toList := by simpa using Ne.symm hname
      simp [hne]
    | cons c content =>
      simp only [Lexeme.mk.injEq, TokenKind.identifier.injEq, Option.some.injEq]
      constructor
      · rintro ⟨rfl, -⟩
        rw [String.toList_ofList]
      · intro h
        rw [h]
        exact ⟨String.ofList_toList, rfl⟩

end Lexeme

/-! ## The first token -/

/-- The first token of a text in front of `rest` is the whole text, as a token of the given kind. -/
def Leads (text : String) (kind : TokenKind) (rest : String) : Prop :=
  (tokenize (text ++ rest)).head? = some ⟨kind, text, Position.start⟩

theorem leads_iff {text rest : String} {kind : TokenKind} {c : Char} {cs : List Char}
    (htext : text.toList = c :: cs) (hc : isBlank c = false) :
    Leads text kind rest ↔ lexeme c (cs ++ rest.toList) = ⟨kind, text.toList⟩ := by
  have hsource : (text ++ rest).toList = c :: (cs ++ rest.toList) := by
    rw [String.toList_append, htext, List.cons_append]
  rw [Leads, tokenize, hsource, scanFrom, if_neg (by simp [hc])]
  cases lexeme c (cs ++ rest.toList) with
  | mk kind' text' =>
    simp only [List.head?_cons, Option.some.injEq, Token.mk.injEq, and_true, Lexeme.mk.injEq]
    constructor
    · rintro ⟨rfl, rfl⟩
      exact ⟨rfl, String.toList_ofList.symm⟩
    · rintro ⟨rfl, rfl⟩
      exact ⟨rfl, String.ofList_toList⟩

/-- A string literal is the first token exactly if no quote follows it. -/
theorem leads_string_iff {s rest : String} :
    Leads (Literal.text s).sql (.string s) rest ↔ rest.toList.head? ≠ some '\'' := by
  have htext : (Literal.text s).sql.toList = '\'' :: (double '\'' s.toList ++ ['\'']) := by
    rw [Literal.sql, enclose, String.toList_ofList]
  rw [leads_iff htext (by decide), lexeme_quote, htext, ← readDoubled?_closed_iff (s := s.toList),
    List.append_assoc]
  exact Lexeme.string_eq_iff

theorem takeWhile_eq_nil_iff {p : Char → Bool} {cs : List Char} :
    cs.takeWhile p = [] ↔ Before (fun c => !p c) cs := by
  cases cs with
  | nil => simp
  | cons c cs => cases hc : p c <;> simp [hc]

/-- A bare name is the first token exactly if no character of a word follows it. -/
theorem leads_bare_iff {name rest : String} (hplain : Sql.isPlainName name.toList = true)
    (hkeyword : Keyword.ofWord? name = none) :
    Leads name (.identifier name) rest ↔ Before (fun c => !isWordPart c) rest.toList := by
  obtain ⟨c, ds, hchars, hc, hds⟩ := isPlainName_iff hplain
  have hbasic := isBasic_of_letter hc
  have hword : ∀ d ∈ name.toList, isWordPart d = true := by
    rw [hchars, List.forall_mem_cons]
    exact ⟨isWordPart_of_basic hbasic, fun d hd => isWordPart_of_basic (hds d hd)⟩
  -- the word that is read is the name and what follows of a word
  rw [leads_iff hchars (isBlank_of_basic hbasic), lexeme_of_letter hc, ← List.cons_append,
    ← hchars, List.takeWhile_append_of_pos hword, ← takeWhile_eq_nil_iff]
  constructor
  · intro hlexeme
    have hcut := congrArg Lexeme.text hlexeme
    rw [Lexeme.text_ofWord] at hcut
    simpa using hcut
  · intro hnone
    rw [hnone, List.append_nil, Lexeme.ofWord, String.ofList_toList, hkeyword]

/-- A name in brackets is the first token exactly if no closing bracket follows it. -/
theorem leads_bracketed_iff {name rest : String} (hname : name ≠ "") :
    Leads (enclose '[' ']' name) (.identifier name) rest ↔ rest.toList.head? ≠ some ']' := by
  have htext : (enclose '[' ']' name).toList = '[' :: (double ']' name.toList ++ [']']) := by
    rw [enclose, String.toList_ofList]
  rw [leads_iff htext (by decide), lexeme_bracket, htext,
    ← readDoubled?_closed_iff (s := name.toList), List.append_assoc]
  exact Lexeme.quotedName_eq_iff hname

/-- The characters that may follow a name as it is written: behind a bare name all that continue no
word, behind brackets all but a closing one. -/
def endsQuoted (name : String) (c : Char) : Bool :=
  if Sql.isPlainName name.toList && (Keyword.ofWord? name).isNone then !isWordPart c else c != ']'

theorem endsQuoted_of_endsName {c : Char} (h : endsName c = true) (name : String) :
    endsQuoted name c = true := by
  rw [endsQuoted]
  split
  · rw [isWordPart_of_endsName h]
    rfl
  · simpa using ne_of_class h (by decide : endsName ']' = false)

/-- A name is the first token exactly if what follows does not continue it. -/
theorem leads_name_iff {name rest : String} (hname : name ≠ "") :
    Leads (Sql.quoteName name) (.identifier name) rest ↔ Before (endsQuoted name) rest.toList := by
  unfold Sql.quoteName endsQuoted
  split
  · next hbare =>
    rw [Bool.and_eq_true, Option.isNone_iff_eq_none] at hbare
    exact leads_bare_iff hbare.1 hbare.2
  · rw [leads_bracketed_iff hname]
    cases rest.toList with
    | nil => simp
    | cons d ds => simp

/-- Quoting is undone by reading. In front of the end of the text, or of a blank, a point, a comma or
a parenthesis, the first token of a written name is the identifier with that name, and the first
token of a written string is that string; the text of the token is all that was written. -/
theorem leads_quoted (name content rest : String) (hname : name ≠ "")
    (hrest : Before endsName rest.toList) :
    Leads (Sql.quoteName name) (.identifier name) rest ∧
      Leads (Literal.text content).sql (.string content) rest := by
  constructor
  · exact (leads_name_iff hname).2 (hrest.mono fun _ hc => endsQuoted_of_endsName hc name)
  · exact leads_string_iff.2 (hrest.head?_ne (by decide))

/-- Delimiters at the end of a name and of a string, in front of a point. -/
theorem leads_quoted_delimiters :
    Leads "[to]]]" (.identifier "to]") ".x" ∧ Leads "'it''s'''" (.string "it's'") ".x" :=
  leads_quoted "to]" "it's'" ".x" (by decide) (by simp [Before, endsName])

end FetchQuery
