import FetchQuery.Proofs.Token.Cuts
import Mathlib.Data.List.DropRight
import Mathlib.Data.String.Basic

/-!
# Tokens cover their source

Scanning a text loses nothing. The text is a sequence of pieces, each a token behind a run of
blanks, with blanks at the end (`tokenize_tiles`); so tokens do not overlap, and all that stands
outside of them is blank. The position of a token is what the characters in front of it make it:
their line feeds, the characters behind the last line feed, and their bytes
(`Position.behind`).

Scanning counts positions character by character, while `Position.behind` looks at all characters
in front at once. Both agree after every character (`Position.after_behind`), and every lexeme
takes at least the character it begins with (`cut_lexeme`), so both agree along the whole text.
-/

set_option autoImplicit false

namespace FetchQuery

open Text

/-! ## Counting characters -/

namespace Position

/-- The position behind the given characters. The line is one more than their line feeds, the
column one more than the characters since the last line feed, and the offset counts their bytes. -/
def behind (cs : List Char) : Position :=
  ⟨1 + cs.count '\n', 1 + (cs.rtakeWhile (· != '\n')).length, String.utf8Len cs⟩

/-- Counting one character further. -/
theorem after_behind (cs : List Char) (c : Char) : (behind cs).after c = behind (cs ++ [c]) := by
  rw [after]
  by_cases hc : c = '\n'
  · subst hc
    rw [if_pos rfl, behind, behind, List.rtakeWhile_concat_neg _ _ _ (by simp)]
    simp [Nat.add_assoc]
  · rw [if_neg hc, behind, behind, List.rtakeWhile_concat_pos _ _ _ (by simpa using hc)]
    simp [Nat.add_assoc, hc]

theorem afterAll_behind (before cs : List Char) :
    (behind before).afterAll cs = behind (before ++ cs) := by
  induction cs generalizing before with
  | nil => simp [afterAll]
  | cons c cs ih =>
    have hstep : (behind before).afterAll (c :: cs) = ((behind before).after c).afterAll cs := rfl
    rw [hstep, after_behind, ih, List.append_assoc, List.singleton_append]

end Position

theorem utf8Len_toList (s : String) : String.utf8Len s.toList = s.utf8ByteSize := by
  rw [← String.utf8ByteSize_ofList, String.ofList_toList]

/-! ## Scanning piece by piece -/

theorem scanFrom_eq_drop (skip : Nat) (p : Position) (cs : List Char) :
    scanFrom skip p cs = scanFrom 0 (p.afterAll (cs.take skip)) (cs.drop skip) := by
  induction cs generalizing skip p with
  | nil => cases skip <;> rfl
  | cons c cs ih =>
    cases skip with
    | zero => rfl
    | succ skip => exact ih skip (p.after c)

/-- Blanks are passed without a token. -/
theorem scanFrom_blanks {blanks : List Char} (h : ∀ c ∈ blanks, isBlank c = true) (p : Position)
    (cs : List Char) : scanFrom 0 p (blanks ++ cs) = scanFrom 0 (p.afterAll blanks) cs := by
  induction blanks generalizing p with
  | nil => rfl
  | cons c blanks ih =>
    rw [List.cons_append, scanFrom, if_pos (h c List.mem_cons_self)]
    exact ih (fun d hd => h d (List.mem_cons_of_mem c hd)) (p.after c)

/-- Behind a token, scanning goes on where its text ends. -/
theorem scanFrom_lexeme {c : Char} (hc : isBlank c = false) {own rest : List Char}
    (hcut : (lexeme c (own ++ rest)).text = c :: own) (p : Position) :
    scanFrom 0 p (c :: (own ++ rest)) =
      ⟨(lexeme c (own ++ rest)).kind, String.ofList (c :: own), p⟩ ::
        scanFrom 0 (p.afterAll (c :: own)) rest := by
  rw [scanFrom, if_neg (by simp [hc])]
  simp only [hcut]
  rw [scanFrom_eq_drop, List.length_cons, Nat.add_sub_cancel, List.take_left, List.drop_left]
  rfl

/-! ## Pieces of a source -/

/-- A token with the blanks in front of it. -/
structure Piece where
  gap : List Char
  token : Token

namespace Piece

/-- The characters of a piece. -/
def chars (p : Piece) : List Char :=
  p.gap ++ p.token.text.toList

/-- A piece of blanks and a token with characters, the first of which is not blank. -/
structure Proper (p : Piece) : Prop where
  gap_blank : ∀ c ∈ p.gap, isBlank c = true
  kind_ne : p.token.kind ≠ .endOfInput
  text_ne : p.token.text ≠ ""
  head_not_blank : ∀ c, p.token.text.toList.head? = some c → isBlank c = false

/-- Pieces of the text behind the characters `before`: the position of each token counts the
characters in front of it. -/
def Placed (before : List Char) : List Piece → Prop
  | [] => True
  | p :: ps =>
    p.token.position = Position.behind (before ++ p.gap) ∧ Placed (before ++ p.chars) ps

theorem Placed.position_eq {before : List Char} {front : List Piece} {p : Piece} {ps : List Piece}
    (h : Placed before (front ++ p :: ps)) :
    p.token.position = Position.behind (before ++ front.flatMap chars ++ p.gap) := by
  induction front generalizing before with
  | nil => simpa using h.1
  | cons q front ih =>
    rw [ih h.2, List.flatMap_cons, ← List.append_assoc]

end Piece

/-- Scanning a text that follows the characters `before`. -/
theorem exists_pieces (cs before : List Char) :
    ∃ (pieces : List Piece) (tail : List Char),
      scanFrom 0 (Position.behind before) cs =
        pieces.map Piece.token ++ [⟨.endOfInput, "", Position.behind (before ++ cs)⟩] ∧
      cs = pieces.flatMap Piece.chars ++ tail ∧ (∀ c ∈ tail, isBlank c = true) ∧
      (∀ p ∈ pieces, p.Proper) ∧ Piece.Placed before pieces := by
  induction cs using text_induction generalizing before with
  | blank blanks h =>
    refine ⟨[], blanks, ?_, rfl, h, by simp, trivial⟩
    have hscan := scanFrom_blanks h (Position.behind before) []
    rw [List.append_nil, Position.afterAll_behind] at hscan
    exact hscan
  | cons blanks c own rest h hc hcut ih =>
    obtain ⟨pieces, tail, hscan, hrest, htail, hproper, hplaced⟩ :=
      ih (before ++ blanks ++ c :: own)
    have htext : (lexeme c (own ++ rest)).text = c :: own := hcut.text_eq
    let token : Token := ⟨(lexeme c (own ++ rest)).kind, String.ofList (c :: own),
      Position.behind (before ++ blanks)⟩
    have hchars : Piece.chars ⟨blanks, token⟩ = blanks ++ c :: own := by
      simp [Piece.chars, token]
    refine ⟨⟨blanks, token⟩ :: pieces, tail, ?_, ?_, htail, ?_, rfl, ?_⟩
    · rw [scanFrom_blanks h, Position.afterAll_behind, scanFrom_lexeme hc htext,
        Position.afterAll_behind, hscan]
      simp [token]
    · rw [List.flatMap_cons, hchars, List.append_assoc, ← hrest]
      simp
    · rw [List.forall_mem_cons]
      refine ⟨⟨h, lexeme_ne_endOfInput _ _, by simp [token], ?_⟩, hproper⟩
      intro d hd
      obtain rfl : c = d := by simpa [token] using hd
      exact hc
    · rw [hchars, ← List.append_assoc]
      exact hplaced

/-- A token of a source begins with a character that is not blank, and its position counts the
characters in front of that one. -/
theorem exists_front_of_mem {source : String} {t : Token} (ht : t ∈ tokenize source)
    (hkind : t.kind ≠ .endOfInput) :
    ∃ (front : List Char) (c : Char) (cs rest : List Char),
      source.toList = front ++ c :: rest ∧ t.text.toList = c :: cs ∧ isBlank c = false ∧
      t.position = Position.behind front := by
  obtain ⟨pieces, tail, hscan, hchars, -, hproper, hplaced⟩ := exists_pieces source.toList []
  rw [show tokenize source = _ from hscan, List.mem_append, List.mem_singleton] at ht
  rcases ht with ht | rfl
  · obtain ⟨p, hp, rfl⟩ := List.mem_map.1 ht
    obtain ⟨before, behind, rfl⟩ := List.append_of_mem hp
    cases htext : p.token.text.toList with
    | nil => exact absurd (String.toList_eq_nil_iff.1 htext) (hproper p hp).text_ne
    | cons c cs =>
      refine ⟨before.flatMap Piece.chars ++ p.gap, c, cs, cs ++ behind.flatMap Piece.chars ++ tail,
        ?_, rfl, (hproper p hp).head_not_blank c (by rw [htext, List.head?_cons]), ?_⟩
      · rw [hchars]
        simp [Piece.chars, htext]
      · simpa using hplaced.position_eq
  · exact absurd rfl hkind

/-- Scanning loses nothing, and positions are exact. The tokens of a source are those of its
pieces, behind which comes the end of the input. The pieces and the blanks behind them are the
whole source; the position of every token counts what stands in front of it, and its text is what
the source holds from its offset on. -/
theorem tokenize_tiles (source : String) :
    ∃ (pieces : List Piece) (tail : List Char) (last : Token),
      tokenize source = pieces.map Piece.token ++ [last] ∧
      last.kind = .endOfInput ∧ last.text = "" ∧ last.position.offset = source.utf8ByteSize ∧
      last.position = Position.behind source.toList ∧
      source.toList = pieces.flatMap Piece.chars ++ tail ∧ (∀ c ∈ tail, isBlank c = true) ∧
      (∀ p ∈ pieces, p.Proper) ∧
      ∀ front p rest, pieces = front ++ p :: rest →
        p.token.position = Position.behind (front.flatMap Piece.chars ++ p.gap) ∧
        String.Pos.Raw.extract source ⟨p.token.position.offset⟩
          ⟨p.token.position.offset + p.token.text.utf8ByteSize⟩ = p.token.text := by
  obtain ⟨pieces, tail, hscan, hchars, htail, hproper, hplaced⟩ := exists_pieces source.toList []
  refine ⟨pieces, tail, _, hscan, rfl, rfl, ?_, rfl, hchars, htail, hproper, ?_⟩
  · exact utf8Len_toList source
  · rintro front p rest rfl
    have hposition := hplaced.position_eq
    rw [List.nil_append] at hposition
    refine ⟨hposition, ?_⟩
    -- the offset counts the bytes in front of the text of the token
    have hsource : source = String.ofList (front.flatMap Piece.chars ++ p.gap ++
        p.token.text.toList ++ (rest.flatMap Piece.chars ++ tail)) := by
      rw [← String.ofList_toList (s := source), hchars]
      simp [Piece.chars]
    have hextract := String.extract_of_valid (front.flatMap Piece.chars ++ p.gap)
      p.token.text.toList (rest.flatMap Piece.chars ++ tail)
    rw [← hsource, utf8Len_toList, String.ofList_toList] at hextract
    rw [hposition]
    exact hextract

end FetchQuery
