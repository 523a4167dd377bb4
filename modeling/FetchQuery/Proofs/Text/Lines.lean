import FetchQuery.Text.Basic
import Mathlib.Data.List.DropRight

/-!
# Trimmed lines

A line holds no line feed (`not_mem_of_mem_lineChars`), and trimming finds nothing to do on a
text that is trimmed already (`trimChars_trimChars`). Together they say that a trimmed line
written behind two hyphens is a comment with exactly that body, and that it is a single line again
unless it is empty (`lines_of_not_mem`).

A character of a text is found again in its lines: the line feeds before it count the lines,
and the characters since the last of them are those before it in its line (`exists_line_at`).
-/

set_option autoImplicit false

namespace FetchQuery.Text

theorem trimChars_eq (cs : List Char) :
    trimChars cs = (cs.dropWhile isBlank).rdropWhile isBlank := rfl

theorem trimChars_cons_of_blank {c : Char} (hc : isBlank c = true) (cs : List Char) :
    trimChars (c :: cs) = trimChars cs := by
  rw [trimChars_eq, trimChars_eq, List.dropWhile_cons_of_pos hc]

/-- Cutting blanks off the end of a text that begins with none leaves such a text. -/
theorem dropWhile_rdropWhile {cs : List Char} (h : cs.dropWhile isBlank = cs) :
    (cs.rdropWhile isBlank).dropWhile isBlank = cs.rdropWhile isBlank := by
  cases hr : cs.rdropWhile isBlank with
  | nil => rfl
  | cons c ds =>
    -- what remains begins like `cs`, and `cs` begins with no blank
    obtain ⟨rest, hrest⟩ : c :: ds <+: cs := hr ▸ List.rdropWhile_prefix isBlank cs
    have hc : isBlank c = false := by
      rw [← hrest, List.cons_append] at h
      cases hb : isBlank c with
      | false => rfl
      | true =>
        rw [List.dropWhile_cons_of_pos hb] at h
        have hle := (List.dropWhile_suffix isBlank (l := ds ++ rest)).length_le
        rw [h, List.length_cons] at hle
        omega
    exact List.dropWhile_cons_of_neg (by simp [hc])

theorem trimChars_trimChars (cs : List Char) : trimChars (trimChars cs) = trimChars cs := by
  rw [trimChars_eq (trimChars cs), trimChars_eq cs,
    dropWhile_rdropWhile (List.dropWhile_idempotent isBlank cs),
    List.rdropWhile_idempotent isBlank]

theorem mem_of_mem_trimChars {c : Char} {cs : List Char} (h : c ∈ trimChars cs) : c ∈ cs := by
  rw [trimChars_eq] at h
  exact (List.dropWhile_suffix isBlank).subset ((List.rdropWhile_prefix isBlank _).subset h)

theorem toList_trim (s : String) : (trim s).toList = trimChars s.toList :=
  String.toList_ofList

theorem dropWhile_of_not_blank {cs : List Char} (h : ∀ c ∈ cs, isBlank c = false) :
    cs.dropWhile isBlank = cs := by
  cases cs with
  | nil => rfl
  | cons c cs => exact List.dropWhile_cons_of_neg (by simp [h c List.mem_cons_self])

/-- Trimming keeps a text without blanks. -/
theorem trim_of_not_blank {s : String} (h : ∀ c ∈ s.toList, isBlank c = false) : trim s = s := by
  have hreverse : ∀ c ∈ s.toList.reverse, isBlank c = false := fun c hc =>
    h c (List.mem_reverse.1 hc)
  rw [trim, trimChars, dropWhile_of_not_blank h, dropWhile_of_not_blank hreverse,
    List.reverse_reverse, String.ofList_toList]

theorem trimChars_append_of_blank {c : Char} (hc : isBlank c = true) (cs : List Char) :
    trimChars (cs ++ [c]) = trimChars cs := by
  rw [trimChars_eq, trimChars_eq, List.dropWhile_append]
  split
  · next hnone =>
    rw [List.isEmpty_iff.1 hnone]
    simp [hc]
  · exact List.rdropWhile_concat_pos isBlank _ c hc

/-- Blanks around a text are trimmed off. -/
theorem trim_padded (s : String) : trim (" " ++ s ++ " ") = trim s := by
  have htext : (" " ++ s ++ " ").toList = ' ' :: (s.toList ++ [' ']) := by
    simp
  rw [trim, htext, trimChars_cons_of_blank (by decide), trimChars_append_of_blank (by decide), trim]

/-- A line ends before its line feed. -/
theorem not_mem_of_mem_lineChars {cs line : List Char} (h : line ∈ lineChars cs) :
    '\n' ∉ line := by
  fun_induction lineChars cs generalizing line with
  | case1 => simp at h
  | case2 cs ih =>
    rcases List.mem_cons.1 h with rfl | h
    · exact List.not_mem_nil
    · exact ih h
  | case3 cs ih =>
    rcases List.mem_cons.1 h with rfl | h
    · exact List.not_mem_nil
    · exact ih h
  | case4 c cs hfeed _ hnil =>
    -- the last line, which no line feed ends
    obtain rfl : line = [c] := by simpa using h
    simpa using fun hc : '\n' = c => hfeed hc.symm
  | case5 c cs hfeed _ first rest hlines ih =>
    rcases List.mem_cons.1 h with rfl | h
    · -- the character goes to the front of the line behind it
      have hfirst := ih (hlines ▸ List.mem_cons_self)
      simpa [hfirst] using fun hc : '\n' = c => hfeed hc.symm
    · exact ih (hlines ▸ List.mem_cons_of_mem _ h)

/-- Characters without a line feed are one line, unless there are none. -/
theorem lineChars_of_not_mem {cs : List Char} (hfeed : '\n' ∉ cs) (hne : cs ≠ []) :
    lineChars cs = [cs] := by
  fun_induction lineChars cs with
  | case1 => exact absurd rfl hne
  | case2 cs ih => simp at hfeed
  | case3 cs ih => simp at hfeed
  | case4 c cs _ _ hnil ih =>
    by_cases hcs : cs = []
    · rw [hcs]
    · -- characters behind the first would be a line
      rw [ih (fun h => hfeed (List.mem_cons_of_mem c h)) hcs] at hnil
      simp at hnil
  | case5 c cs _ _ first rest hlines ih =>
    have hcs : cs ≠ [] := by
      rintro rfl
      simp [lineChars] at hlines
    rw [ih (fun h => hfeed (List.mem_cons_of_mem c h)) hcs] at hlines
    obtain ⟨rfl, rfl⟩ := List.cons.inj hlines
    rfl

theorem lines_of_not_mem {line : String} (hfeed : '\n' ∉ line.toList) (hne : line ≠ "") :
    lines line = [line] := by
  rw [lines, lineChars_of_not_mem hfeed (by simpa using hne), List.map_singleton,
    String.ofList_toList]

/-! ## The line of a character -/

/-- Characters in front of one outside the class do not belong to the run at the end. -/
theorem rtakeWhile_cons_of_mem {p : Char → Bool} {l : List Char} {d : Char} (hd : d ∈ l)
    (hp : p d = false) (c : Char) : (c :: l).rtakeWhile p = l.rtakeWhile p := by
  have hlength : (l.reverse.takeWhile p).length ≠ l.reverse.length := by
    intro h
    have hall := List.takeWhile_eq_self_iff.1 ((List.takeWhile_prefix p).eq_of_length h)
    have := hall d (List.mem_reverse.2 hd)
    rw [hp] at this
    exact absurd this Bool.false_ne_true
  rw [List.rtakeWhile, List.reverse_cons, List.takeWhile_append, if_neg hlength, List.rtakeWhile]

/-- A line ends where the next one begins. -/
theorem rtakeWhile_feed_cons (l : List Char) :
    ('\n' :: l).rtakeWhile (· != '\n') = l.rtakeWhile (· != '\n') := by
  rw [List.rtakeWhile, List.reverse_cons, List.takeWhile_append, List.rtakeWhile]
  split
  · next h =>
    rw [(List.takeWhile_prefix _).eq_of_length h]
    simp
  · rfl

theorem rtakeWhile_of_not_mem {l : List Char} (h : '\n' ∉ l) : l.rtakeWhile (· != '\n') = l := by
  rw [List.rtakeWhile_eq_self_iff]
  intro c hc
  simpa using fun heq : c = '\n' => h (heq ▸ hc)

/-- A character stands in the line with as many line feeds before it, behind the characters
since the last of them. -/
theorem exists_line_at (front rest : List Char) {c : Char} (hfeed : c ≠ '\n') (hreturn : c ≠ '\r') :
    ∃ l, (lineChars (front ++ c :: rest))[front.count '\n']? = some l ∧
      l[(front.rtakeWhile (· != '\n')).length]? = some c := by
  generalize hcs : front ++ c :: rest = cs
  -- the cases of the division into lines, each with the front empty or not
  fun_induction lineChars cs generalizing front with
  | case1 => simp at hcs
  | case2 cs ih =>
    cases front with
    | nil => exact absurd (List.cons.inj hcs).1 hfeed
    | cons b front =>
      obtain ⟨rfl, hrest⟩ := List.cons.inj hcs
      obtain ⟨l, hline, hc⟩ := @ih front hrest
      refine ⟨l, ?_, ?_⟩
      · simpa using hline
      · rwa [rtakeWhile_feed_cons]
  | case3 cs ih =>
    rcases front with _ | ⟨b, _ | ⟨d, front⟩⟩
    · exact absurd (List.cons.inj hcs).1 hreturn
    · exact absurd (List.cons.inj (List.cons.inj hcs).2).1 hfeed
    · obtain ⟨rfl, hnext⟩ := List.cons.inj hcs
      obtain ⟨rfl, hrest⟩ := List.cons.inj hnext
      obtain ⟨l, hline, hc⟩ := @ih front hrest
      refine ⟨l, ?_, ?_⟩
      · simpa using hline
      · rwa [rtakeWhile_cons_of_mem List.mem_cons_self (by decide), rtakeWhile_feed_cons]
  | case4 b cs hb _ hnil ih =>
    cases front with
    | nil =>
      obtain ⟨rfl, -⟩ := List.cons.inj hcs
      exact ⟨[c], rfl, rfl⟩
    | cons d front =>
      obtain ⟨l, hline, -⟩ := @ih front (List.cons.inj hcs).2
      rw [hnil] at hline
      simp at hline
  | case5 b cs hb _ first lines hlines ih =>
    cases front with
    | nil =>
      obtain ⟨rfl, -⟩ := List.cons.inj hcs
      exact ⟨c :: first, rfl, rfl⟩
    | cons d front =>
      obtain ⟨rfl, hrest⟩ := List.cons.inj hcs
      obtain ⟨l, hline, hc⟩ := @ih front hrest
      rw [hlines] at hline
      rw [List.count_cons_of_ne hb]
      by_cases hmem : '\n' ∈ front
      · obtain ⟨n, hn⟩ := Nat.exists_eq_succ_of_ne_zero (List.count_pos_iff.2 hmem).ne'
        rw [hn] at hline ⊢
        refine ⟨l, hline, ?_⟩
        rwa [rtakeWhile_cons_of_mem hmem (by decide)]
      · -- no line feed yet: the character is in the first line, which grows by one
        rw [List.count_eq_zero_of_not_mem hmem] at hline ⊢
        obtain rfl : first = l := by simpa using hline
        rw [rtakeWhile_of_not_mem hmem] at hc
        have hmem' : '\n' ∉ d :: front := by simpa [hmem] using Ne.symm hb
        refine ⟨d :: first, rfl, ?_⟩
        rw [rtakeWhile_of_not_mem hmem']
        exact hc

end FetchQuery.Text
