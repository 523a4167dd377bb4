import FetchQuery.Proofs.Sql.InStepStatement

/-!
# Formatted texts

The layout of a text has no influence on its tokens: both layouts of a statement have the same
tokens, whatever the statement holds, and so they are read alike (`tokenize_render_layouts`).

Reading a formatted text and formatting what was read gives the text again, except for one thing.
A comment of several lines is written line by line, its blank lines too. Read again, every line is
a comment of its own, and of a comment without characters nothing is written. So blank lines
inside comments are lost when a text is formatted for the second time, and nothing is lost from
then on (`render_again_iff`).
-/

set_option autoImplicit false

namespace FetchQuery

open Text

/-- Tokens with one lexeme are not told apart. -/
theorem SameToken.of_lexeme_eq {t t' : Token} (h : t.lexeme = t'.lexeme) : SameToken t t' := by
  obtain ⟨hkind, htext⟩ := Lexeme.mk.inj h
  exact ⟨hkind, fun _ => String.toList_injective htext⟩

namespace Sql

/-! ## Texts with the same lexemes -/

theorem map_lexeme_spoken (tokens : List Token) :
    (spoken tokens).map Token.lexeme =
      (tokens.map Token.lexeme).filter fun l => !l.kind.isComment := by
  rw [spoken, List.filter_map]
  rfl

section Lexemes

variable {tokens tokens' : List Token} (h : tokens.map Token.lexeme = tokens'.map Token.lexeme)

include h

theorem forall₂_sameToken_spoken : List.Forall₂ SameToken (spoken tokens) (spoken tokens') := by
  have hspoken : (spoken tokens).map Token.lexeme = (spoken tokens').map Token.lexeme := by
    rw [map_lexeme_spoken, map_lexeme_spoken, h]
  rw [← List.forall₂_eq_eq_eq, List.forall₂_map_left_iff, List.forall₂_map_right_iff] at hspoken
  exact hspoken.imp fun _ _ => SameToken.of_lexeme_eq

theorem leadingComments_congr : leadingComments tokens = leadingComments tokens' := by
  induction tokens generalizing tokens' with
  | nil =>
    cases tokens' with
    | nil => rfl
    | cons t' tokens' => simp at h
  | cons t tokens ih =>
    cases tokens' with
    | nil => simp at h
    | cons t' tokens' =>
      obtain ⟨hlexeme, hrest⟩ := List.cons.inj h
      have hkind : t.kind = t'.kind := congrArg Lexeme.kind hlexeme
      rw [leadingComments, leadingComments, hkind, ih hrest]

end Lexemes

/-- Texts with the same lexemes are read as the same statement, or refused for the same reason. -/
theorem parse_of_lexemes_eq {text text' : String}
    (h : lexemes text.toList = lexemes text'.toList) (lenient : Bool) :
    (∃ s, parse text lenient = .ok s ∧ parse text' lenient = .ok s) ∨
      ∃ e e', parse text lenient = .error e ∧ parse text' lenient = .error e' ∧
        e.fault = e'.fault := by
  have htokens : (tokenize text).map Token.lexeme = (tokenize text').map Token.lexeme := by
    rw [map_lexeme_tokenize, map_lexeme_tokenize, h]
  have hagree := agree_parse (forall₂_sameToken_spoken htokens) lenient
  generalize parse text lenient = outcome at hagree
  generalize parse text' lenient = outcome' at hagree
  cases hagree with
  | @ok s s' hsame =>
    obtain ⟨hrest, hcomments, hcomments'⟩ := hsame
    have hequal : s.comments = s'.comments := by
      rw [hcomments, hcomments', leadingComments_congr htokens]
    have hstatement : s = s' := by
      calc s = { ({ s with comments := [] } : Statement) with comments := s.comments } := rfl
        _ = s' := by rw [hrest, hequal]
    exact .inl ⟨s', by rw [hstatement], rfl⟩
  | @error e e' herror => exact .inr ⟨e, e', rfl, rfl, herror.fault_eq⟩

/-- Both layouts of a statement say the same: they have tokens of the same kinds with the same
texts, and they are read as one statement or refused with one message. -/
theorem tokenize_render_layouts (s : Statement) :
    (tokenize (render .pretty s)).map Token.lexeme =
        (tokenize (render .compact s)).map Token.lexeme ∧
      ∀ lenient,
        (∃ s', parse (render .pretty s) lenient = .ok s' ∧
          parse (render .compact s) lenient = .ok s') ∨
        ∃ e e', parse (render .pretty s) lenient = .error e ∧
          parse (render .compact s) lenient = .error e' ∧ e.fault.message = e'.fault.message := by
  have hlexemes : lexemes (render .pretty s).toList = lexemes (render .compact s).toList := by
    rw [lexemes_render, lexemes_render]
  refine ⟨?_, fun lenient => ?_⟩
  · rw [map_lexeme_tokenize, map_lexeme_tokenize, hlexemes]
  · rcases parse_of_lexemes_eq hlexemes lenient with hread | ⟨e, e', he, he', hfault⟩
    · exact .inl hread
    · exact .inr ⟨e, e', he, he', by rw [hfault]⟩

/-! ## Formatting again -/

/-- Statements that differ in their comments have one text exactly if the lines of the comments are
the same: the comments of a text are told apart from its clauses. -/
theorem render_comments_iff (layout : Layout) (s : Statement) (comments comments' : List String) :
    render layout { s with comments } = render layout { s with comments := comments' } ↔
      commentLines { s with comments } = commentLines { s with comments := comments' } := by
  have hclauses : ∀ ls, clauseLexemes { s with comments := ls } = clauseLexemes s := fun _ => rfl
  constructor
  · intro h
    have hlexemes := congrArg (fun text : String => lexemes text.toList) h
    simp only [lexemes_render, statementLexemes, hclauses, List.append_cancel_right_eq] at hlexemes
    refine List.map_injective_iff.2 ?_ hlexemes
    intro line line' hline
    exact TokenKind.comment.inj (congrArg Lexeme.kind hline)
  · intro h
    rw [render, render, commentText, commentText, h]
    rfl

/-- The lines of comments, taken as comments, are written again unless they are empty. -/
theorem commentLines_again (s : Statement) :
    commentLines { s with comments := commentLines s } = (commentLines s).filter (· != "") := by
  have hlines : ∀ line ∈ commentLines s, trim line = line ∧ '\n' ∉ line.toList := by
    intro line hline
    obtain ⟨htrim, hfeed⟩ := trimChars_commentLine hline
    exact ⟨by rw [trim, htrim, String.ofList_toList], hfeed⟩
  change (commentLines s).flatMap (fun comment => (lines comment).map trim) = _
  -- all that matters of the lines is that they are trimmed and hold no line feed
  generalize commentLines s = ls at hlines ⊢
  induction ls with
  | nil => rfl
  | cons line ls ih =>
    obtain ⟨htrim, hfeed⟩ := hlines line List.mem_cons_self
    rw [List.flatMap_cons, ih fun l hl => hlines l (List.mem_cons_of_mem line hl)]
    by_cases hline : line = ""
    · rw [hline, List.filter_cons_of_neg (by simp)]
      rfl
    · rw [List.filter_cons_of_pos (by simpa using hline), lines_of_not_mem hfeed hline,
        List.map_singleton, htrim, List.singleton_append]

/-- Writing the lines of the comments as comments changes nothing exactly if none of them is
empty. -/
theorem render_commentLines_iff (layout : Layout) (s : Statement) :
    render layout { s with comments := commentLines s } = render layout s ↔
      "" ∉ commentLines s := by
  have hlines := render_comments_iff layout s (commentLines s) s.comments
  rw [hlines, commentLines_again, List.filter_eq_self, ← List.forall_mem_ne']
  simp only [bne_iff_ne, ne_eq]

/-- A text that is read is formatted into one that is read as well. Formatting it again gives the
same text exactly if no comment in front of the statement has a blank line, and formatting a third
time always gives the second text. -/
theorem render_again_iff {text : String} {lenient : Bool} {s : Statement}
    (h : parse text lenient = .ok s) (layout : Layout) :
    ∃ s', parse (render layout s) false = .ok s' ∧
      (render layout s' = render layout s ↔
        ∀ comment ∈ s.comments, ∀ line ∈ lines comment, trim line ≠ "") ∧
      ∃ s'', parse (render layout s') false = .ok s'' ∧ render layout s'' = render layout s' := by
  have hread := parse_render (writable_of_parse h) layout
  refine ⟨_, hread, ?_, _, parse_render (writable_of_parse hread) layout, ?_⟩
  · rw [render_commentLines_iff]
    simp [commentLines]
  · -- only lines with characters have been written
    rw [render_commentLines_iff, commentLines_again]
    simp

/-- A text with three comments, one of them empty and one of two lines. -/
def notedText : String :=
  "/**/ /* open\n\taccounts */ -- by name\nselect name n from account order by n"

/-- The statement of `notedText`. -/
def noted : Statement where
  comments := ["", "open\n\taccounts", "by name"]
  distinct := false
  top := none
  items := [⟨.column ⟨none, "name"⟩, some "n"⟩]
  source := ⟨"account", none⟩
  joins := []
  condition := none
  groupBy := []
  orderBy := [⟨⟨none, "n"⟩, .ascending⟩]

theorem render_again_noted :
    parse notedText false = .ok noted ∧
      ∃ s, parse (render .pretty noted) false = .ok s ∧
        render .pretty s = render .pretty noted := by
  have hparse : parse notedText false = .ok noted := by decide +kernel
  obtain ⟨s, hs, hiff, -⟩ := render_again_iff hparse .pretty
  exact ⟨hparse, s, hs, hiff.2 (by decide +kernel)⟩

/-- A text with a blank line inside a comment. -/
def gappedText : String :=
  "/* by name\n\nand city */ SELECT name FROM account"

/-- The statement of `gappedText`. -/
def gapped : Statement where
  comments := ["by name\n\nand city"]
  distinct := false
  top := none
  items := [⟨.column ⟨none, "name"⟩, none⟩]
  source := ⟨"account", none⟩
  joins := []
  condition := none
  groupBy := []
  orderBy := []

/-- The blank line is written when the text is formatted, and left out when it is formatted
again. -/
theorem gapped_changed :
    parse gappedText false = .ok gapped ∧
      render .pretty gapped = "-- by name\n-- \n-- and city\nSELECT name\nFROM account" ∧
      ∃ s, parse (render .pretty gapped) false = .ok s ∧
        render .pretty s = "-- by name\n-- and city\nSELECT name\nFROM account" := by
  refine ⟨by decide +kernel, by decide +kernel,
    { gapped with comments := ["by name", "", "and city"] }, ?_, ?_⟩
  · decide +kernel
  · decide +kernel

end Sql

end FetchQuery
