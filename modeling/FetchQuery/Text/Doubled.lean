/-!
# Runs closed by a delimiter that doubles inside

A quoted text ends at its closing delimiter, and inside it a doubled delimiter
stands for the delimiter itself: `'it''s'`, `[a]]b]`. `double` writes the inside
of such a run and `readDoubled?` reads it back. Reading returns what was written
whenever no further delimiter follows (`readDoubled?_double_append`), and every
content it returns was written that way (`exists_of_readDoubled?`).
-/

set_option autoImplicit false

namespace FetchQuery.Text

/-- The inside of a delimited run: every delimiter is written twice. -/
def double (close : Char) : List Char → List Char
  | [] => []
  | c :: cs => if c = close then close :: close :: double close cs else c :: double close cs

/-- The content of the delimited run that `cs` begins with, or `none` when the
characters end before the closing delimiter. -/
def readDoubled? (close : Char) : List Char → Option (List Char)
  | [] => none
  | [c] => if c = close then some [] else none
  | c :: d :: cs =>
    if c = close then
      if d = close then (readDoubled? close cs).map (close :: ·) else some []
    else (readDoubled? close (d :: cs)).map (c :: ·)

/-- A written run reads back when the character behind it is no further delimiter. -/
theorem readDoubled?_double_append (close : Char) (s rest : List Char)
    (h : rest.head? ≠ some close) :
    readDoubled? close (double close s ++ close :: rest) = some s := by
  induction s with
  | nil =>
    cases rest with
    | nil => simp [double, readDoubled?]
    | cons d rest =>
      have hd : d ≠ close := by simpa using h
      simp [double, readDoubled?, hd]
  | cons c s ih =>
    by_cases hc : c = close
    · simp [double, hc, readDoubled?, ih]
    · cases hs : double close s ++ close :: rest with
      | nil => simp at hs
      | cons d ds =>
        simp only [double, hc, if_false, List.cons_append, hs, readDoubled?]
        rw [← hs, ih]
        rfl

/-- Content is read only from its own written form, and the run ends at the first
delimiter that is not doubled. -/
theorem exists_of_readDoubled? (close : Char) (cs s : List Char)
    (h : readDoubled? close cs = some s) :
    ∃ rest, cs = double close s ++ close :: rest ∧ rest.head? ≠ some close := by
  fun_induction readDoubled? close cs generalizing s with
  | case1 => simp at h
  | case2 =>
    obtain rfl : [] = s := by simpa using h
    exact ⟨[], by simp [double]⟩
  | case3 => simp at h
  | case4 cs ih =>
    obtain ⟨t, ht, rfl⟩ := Option.map_eq_some_iff.1 h
    obtain ⟨rest, rfl, hne⟩ := ih t ht
    exact ⟨rest, by simp [double], hne⟩
  | case5 d cs hd =>
    obtain rfl : [] = s := by simpa using h
    exact ⟨d :: cs, by simp [double], by simpa using hd⟩
  | case6 c d cs hc ih =>
    obtain ⟨t, ht, rfl⟩ := Option.map_eq_some_iff.1 h
    obtain ⟨rest, hr, hne⟩ := ih t ht
    exact ⟨rest, by simp [double, hc, hr], hne⟩

/-- A text between two delimiters, the closing one doubled inside. -/
def enclose (first close : Char) (s : String) : String :=
  String.ofList (first :: (double close s.toList ++ [close]))

end FetchQuery.Text
