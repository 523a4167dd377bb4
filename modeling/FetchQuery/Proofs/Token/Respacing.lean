import FetchQuery.Proofs.Token.Cuts

/-!
# Lexemes in new surroundings

The texts of all tokens of a source, written one below the other, are cut into the same tokens
again (`tokenize_respaced`). A token that was decided by what follows it is decided alike in front
of a line feed, and one that nothing closes is the last (`cut_lexeme`).
-/

set_option autoImplicit false

namespace FetchQuery

open Text

theorem lexemes_blanks {blanks : List Char} (h : ∀ c ∈ blanks, isBlank c = true)
    (cs : List Char) : lexemes (blanks ++ cs) = lexemes cs := by
  induction blanks with
  | nil => rfl
  | cons c blanks ih =>
    rw [List.cons_append, lexemes_cons_of_blank (h c List.mem_cons_self)]
    exact ih fun d hd => h d (List.mem_cons_of_mem c hd)

/-- Cutting goes on behind the text of the first lexeme. -/
theorem lexemes_of_lexeme {c : Char} (hc : isBlank c = false) {own more : List Char} {l : Lexeme}
    (hl : lexeme c (own ++ more) = l) (htext : l.text = c :: own) :
    lexemes (c :: (own ++ more)) = l :: lexemes more := by
  rw [lexemes_cons_of_not_blank hc, hl, htext, List.length_cons, Nat.add_sub_cancel,
    List.drop_left]

/-- The texts of lexemes, one in a line. -/
def respaced (ls : List Lexeme) : List Char :=
  ['\n'].intercalate (ls.map Lexeme.text)

theorem lexemes_respaced (cs : List Char) : lexemes (respaced (lexemes cs)) = lexemes cs := by
  induction cs using text_induction with
  | blank blanks h =>
    have hnone : lexemes blanks = [] := by
      rw [← List.append_nil blanks, lexemes_blanks h, lexemes_nil]
    rw [hnone]
    rfl
  | cons blanks c own rest h hc hcut ih =>
    have htext : (lexeme c (own ++ rest)).text = c :: own := hcut.text_eq
    rw [lexemes_blanks h, lexemes_of_lexeme hc rfl htext]
    generalize lexeme c (own ++ rest) = l at hcut htext
    by_cases hrest : lexemes rest = []
    · -- the last lexeme, which may be open
      have hlast : lexeme c (own ++ []) = l := hcut.again [] (before_nil _) fun _ => rfl
      have hown := lexemes_of_lexeme hc hlast htext
      rw [List.append_nil, lexemes_nil] at hown
      rw [hrest, respaced, List.map_singleton, List.intercalate_singleton, htext, hown]
    · -- an open lexeme would have taken what follows
      have hclosed : l.isOpen ≠ true := by
        intro hopen
        rw [hcut.rest_eq hopen] at hrest
        exact hrest lexemes_nil
      have hlines : respaced (l :: lexemes rest) =
          c :: (own ++ '\n' :: respaced (lexemes rest)) := by
        rw [respaced, List.map_cons, List.intercalate_cons_of_ne_nil (by simpa using hrest), htext]
        simp [respaced]
      have hagain := hcut.again ('\n' :: respaced (lexemes rest)) (before_cons.2 rfl)
        fun hopen => absurd hopen hclosed
      rw [hlines, lexemes_of_lexeme hc hagain htext, lexemes_cons_of_blank (by decide), ih]

theorem kind_ne_of_mem_lexemes {cs : List Char} {l : Lexeme} (h : l ∈ lexemes cs) :
    l.kind ≠ .endOfInput := by
  induction cs using text_induction with
  | blank blanks hblanks =>
    rw [← List.append_nil blanks, lexemes_blanks hblanks, lexemes_nil] at h
    exact absurd h List.not_mem_nil
  | cons blanks c own rest hblanks hc hcut ih =>
    rw [lexemes_blanks hblanks, lexemes_of_lexeme hc rfl hcut.text_eq] at h
    rcases List.mem_cons.1 h with rfl | h
    · exact lexeme_ne_endOfInput c _
    · exact ih h

/-- The tokens in front of the end of the input are the lexemes of the source. -/
theorem map_lexeme_filter_tokenize (source : String) :
    ((tokenize source).filter (·.kind != .endOfInput)).map Token.lexeme =
      lexemes source.toList := by
  have hfilter : ((tokenize source).filter (·.kind != .endOfInput)).map Token.lexeme =
      ((tokenize source).map Token.lexeme).filter (·.kind != .endOfInput) := by
    rw [List.filter_map]
    rfl
  have hlexemes : (lexemes source.toList).filter (·.kind != .endOfInput) =
      lexemes source.toList := by
    rw [List.filter_eq_self]
    intro l hl
    simpa using kind_ne_of_mem_lexemes hl
  rw [hfilter, map_lexeme_tokenize, List.filter_append, hlexemes]
  simp

/-- Token boundaries do not depend on the blanks around them. The texts of all tokens of a source,
comments and faults among them, joined by line feeds, have tokens of the same kinds with the same
texts in the same order. -/
theorem tokenize_respaced (source : String) :
    (tokenize ("\n".intercalate
        (((tokenize source).filter (·.kind != .endOfInput)).map Token.text))).map
      (fun t => (t.kind, t.text)) =
    (tokenize source).map fun t => (t.kind, t.text) := by
  have hjoined : ("\n".intercalate
      (((tokenize source).filter (·.kind != .endOfInput)).map Token.text)).toList =
        respaced (lexemes source.toList) := by
    rw [String.toList_intercalate, respaced, ← map_lexeme_filter_tokenize, List.map_map,
      List.map_map]
    rfl
  -- a token without its position is its lexeme
  have hpair : ∀ tokens : List Token, (tokens.map fun t => (t.kind, t.text)) =
      (tokens.map Token.lexeme).map fun l => (l.kind, String.ofList l.text) := by
    intro tokens
    simp [Token.lexeme, Function.comp_def]
  rw [hpair, hpair, map_lexeme_tokenize, map_lexeme_tokenize, hjoined, lexemes_respaced]

end FetchQuery
