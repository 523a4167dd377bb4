import FetchQuery.Proofs.Fetch.CommentBody
import Mathlib.Data.List.ReduceOption

/-!
# Runs of hyphens in comment bodies

Separating pairs of hyphens goes on as long as there is a pair (`SeparatesIn`). One pass leaves at
most two hyphens in a row (`not_infix_three`), and from there one more pass leaves no pair
(`hyphenPairs_of_not_infix_three`), so it ends after two passes at the latest
(`SeparatesIn.le_two`).

What comes out is the comment with a blank between every two hyphens that follow each other.
`Spreads` says this run by run, with the blanks that were put in told apart from those of the
comment. The places of these blanks can be read off the comment (`spread`), and a pass changes
nothing of the text that has them all (`blanked_spread_splitHyphenPairs`).
-/

set_option autoImplicit false

namespace FetchQuery.Fetch

/-! ## The number of passes -/

/-- Separating the pairs of hyphens in a text, over and over while there are any, ends with the
given text after `n` passes. -/
inductive SeparatesIn : Nat → List Char → List Char → Prop
  | done {cs : List Char} (h : hasHyphenPair cs = false) : SeparatesIn 0 cs cs
  | pass {n : Nat} {cs ds : List Char} (h : hasHyphenPair cs = true)
      (hrest : SeparatesIn n (splitHyphenPairs cs) ds) : SeparatesIn (n + 1) cs ds

theorem hasHyphenPair_eq_false_iff {cs : List Char} :
    hasHyphenPair cs = false ↔ hyphenPairs cs = 0 := by
  rw [← Bool.not_eq_true, hasHyphenPair_iff, not_not]

/-- With a pass for every pair there are passes enough. -/
theorem separatesIn_separateWithin {m : Nat} {cs : List Char} (h : hyphenPairs cs ≤ m) :
    ∃ n, SeparatesIn n cs (separateWithin m cs) := by
  induction m generalizing cs with
  | zero => exact ⟨0, .done (hasHyphenPair_eq_false_iff.2 (Nat.le_zero.1 h))⟩
  | succ m ih =>
    rw [separateWithin]
    split
    · next hpair =>
      -- the pass takes one from the allowance and at least one from the pairs
      have hfewer := hyphenPairs_splitHyphenPairs_le cs
      have hle : hyphenPairs (splitHyphenPairs cs) ≤ m := by omega
      obtain ⟨n, hn⟩ := ih hle
      exact ⟨n + 1, .pass hpair hn⟩
    · next hnone => exact ⟨0, .done (by simpa using hnone)⟩

theorem separateWithin_of_hyphenPairs {cs : List Char} (h : hyphenPairs cs = 0) (m : Nat) :
    separateWithin m cs = cs := by
  cases m with
  | zero => rfl
  | succ m =>
    rw [separateWithin, if_neg]
    simpa using hasHyphenPair_eq_false_iff.2 h

/-- A pass leaves no pair at the front: the first two hyphens are separated. -/
theorem not_prefix_pair (cs : List Char) : ¬['-', '-'] <+: splitHyphenPairs cs := by
  fun_cases splitHyphenPairs cs with
  | case1 => simp
  | case2 c => simp
  | case3 c d cs h => simp
  | case4 c d cs h =>
    rw [List.cons_prefix_cons]
    rintro ⟨rfl, ⟨rest, hrest⟩⟩
    have hhead := head?_splitHyphenPairs (d :: cs)
    rw [← hrest] at hhead
    exact h ⟨rfl, by simpa using hhead.symm⟩

/-- A pass leaves no three hyphens in a row. -/
theorem not_infix_three (cs : List Char) : ¬['-', '-', '-'] <:+: splitHyphenPairs cs := by
  fun_induction splitHyphenPairs cs with
  | case1 => simp
  | case2 c =>
    intro h
    have hle := h.length_le
    simp at hle
  | case3 c d cs h ih =>
    -- behind the blank there is one hyphen, and what follows it begins with no pair
    have hpair := not_prefix_pair cs
    simp [List.infix_cons_iff, hpair, ih]
  | case4 c d cs h ih =>
    have hpair := not_prefix_pair (d :: cs)
    simp [List.infix_cons_iff, hpair, ih]

/-- Where no three hyphens stand in a row, a pass leaves no pair. -/
theorem hyphenPairs_of_not_infix_three {cs : List Char} (h : ¬['-', '-', '-'] <:+: cs) :
    hyphenPairs (splitHyphenPairs cs) = 0 := by
  fun_induction splitHyphenPairs cs with
  | case1 => rfl
  | case2 c => simp [hyphenPairs]
  | case3 c d cs hpair ih =>
    obtain ⟨rfl, rfl⟩ := hpair
    have hhead : cs.head? ≠ some '-' := by
      intro hhead
      obtain ⟨cs, rfl⟩ := List.head?_eq_some_iff.1 hhead
      exact h ⟨[], cs, rfl⟩
    have hrest := ih fun hthree => h (hthree.trans ⟨['-', '-'], [], by simp⟩)
    simp [hyphenPairs, head?_splitHyphenPairs, hhead, hrest]
  | case4 c d cs hpair ih =>
    have hrest := ih fun hthree => h (List.infix_cons hthree)
    simp [hyphenPairs, head?_splitHyphenPairs, hpair, hrest]

/-- Two passes separate all hyphens. -/
theorem SeparatesIn.le_two {n : Nat} {cs ds : List Char} (h : SeparatesIn n cs ds) : n ≤ 2 := by
  cases h with
  | done => exact Nat.zero_le 2
  | pass _ h =>
    cases h with
    | done => exact Nat.le_succ 1
    | pass _ h =>
      cases h with
      | done => exact Nat.le_refl 2
      | pass hpair _ =>
        -- a third pass would find a pair that the first two have left
        exact absurd (hyphenPairs_of_not_infix_three (not_infix_three _)) (hasHyphenPair_iff.1 hpair)

/-! ## The text that comes out -/

/-- A text with blanks put into it, `none` standing for each of them: every run of hyphens that is
as long as it can be has a blank between its hyphens, and nothing else is put in. -/
inductive Spreads : List Char → List (Option Char) → Prop
  | nil : Spreads [] []
  | other {c : Char} {cs : List Char} {marks : List (Option Char)} (hc : c ≠ '-')
      (h : Spreads cs marks) : Spreads (c :: cs) (some c :: marks)
  | run {cs : List Char} {marks : List (Option Char)} (k : Nat) (hend : cs.head? ≠ some '-')
      (h : Spreads cs marks) :
      Spreads (List.replicate (k + 1) '-' ++ cs)
        ((List.replicate (k + 1) (some '-')).intersperse none ++ marks)

/-- The characters of a text with the blanks that were put into it. -/
def blanked (marks : List (Option Char)) : List Char :=
  marks.map fun mark => mark.getD ' '

/-- A text with a blank put between every two hyphens that follow each other. -/
def spread : List Char → List (Option Char)
  | [] => []
  | c :: cs =>
    if c = '-' ∧ cs.head? = some '-' then some c :: none :: spread cs else some c :: spread cs

/-- A hyphen in front makes the first run longer, or is a run of its own. -/
theorem Spreads.hyphen {cs : List Char} {marks : List (Option Char)} (h : Spreads cs marks) :
    Spreads ('-' :: cs)
      (if cs.head? = some '-' then some '-' :: none :: marks else some '-' :: marks) := by
  cases h with
  | nil => exact .run 0 (by simp) .nil
  | @other c cs marks hc h =>
    rw [if_neg (by simpa using hc)]
    exact .run 0 (by simpa using hc) (.other hc h)
  | @run cs marks k hend h =>
    rw [if_pos (by simp [List.replicate_succ])]
    exact .run (k + 1) hend h

theorem spreads_spread (cs : List Char) : Spreads cs (spread cs) := by
  induction cs with
  | nil => exact .nil
  | cons c cs ih =>
    rw [spread]
    by_cases hc : c = '-'
    · subst hc
      simpa using ih.hyphen
    · rw [if_neg fun h => hc h.1]
      exact .other hc ih

/-- Without the blanks that were put in, the text is as it was. -/
theorem reduceOption_spread (cs : List Char) : (spread cs).reduceOption = cs := by
  induction cs with
  | nil => rfl
  | cons c cs ih =>
    rw [spread]
    split <;> simp [ih]

theorem blanked_spread_cons (c : Char) (cs : List Char) :
    blanked (spread (c :: cs)) =
      if c = '-' ∧ cs.head? = some '-' then c :: ' ' :: blanked (spread cs)
      else c :: blanked (spread cs) := by
  rw [spread]
  split <;> rfl

/-- A pass puts in some of the blanks and leaves the places of the others. -/
theorem blanked_spread_splitHyphenPairs (cs : List Char) :
    blanked (spread (splitHyphenPairs cs)) = blanked (spread cs) := by
  fun_induction splitHyphenPairs cs with
  | case1 => rfl
  | case2 => rfl
  | case3 c d cs h ih =>
    -- the blank that the pass puts in is one of those, and another may follow the second hyphen
    obtain ⟨rfl, rfl⟩ := h
    simp [blanked_spread_cons, head?_splitHyphenPairs, ih]
  | case4 c d cs h ih =>
    rw [blanked_spread_cons, blanked_spread_cons c, head?_splitHyphenPairs, ih]

theorem blanked_spread_of_hyphenPairs {cs : List Char} (h : hyphenPairs cs = 0) :
    blanked (spread cs) = cs := by
  induction cs with
  | nil => rfl
  | cons c cs ih =>
    rw [hyphenPairs, Nat.add_eq_zero_iff] at h
    have hpair : ¬(c = '-' ∧ cs.head? = some '-') := by
      intro hpair
      simp [hpair] at h
    rw [blanked_spread_cons, if_neg hpair, ih h.2]

/-- Separating ends with all blanks put in. -/
theorem SeparatesIn.eq_blanked {n : Nat} {cs ds : List Char} (h : SeparatesIn n cs ds) :
    blanked (spread cs) = ds := by
  induction h with
  | done h => exact blanked_spread_of_hyphenPairs (hasHyphenPair_eq_false_iff.1 h)
  | pass _ _ ih => rw [← blanked_spread_splitHyphenPairs, ih]

/-- The body of a comment is the comment with its hyphens separated. Separating them pair by pair
ends, after two passes at most; what comes out has a blank between the hyphens of every run and is
otherwise the comment, which is left again without these blanks. So a body holds no two hyphens in a
row, and it is its own body. -/
theorem commentBody_separated (comment : String) :
    (∃ n ≤ 2, SeparatesIn n comment.toList (commentBody comment).toList) ∧
      (∃ marks, Spreads comment.toList marks ∧ blanked marks = (commentBody comment).toList ∧
        marks.reduceOption = comment.toList) ∧
      ¬['-', '-'] <:+: (commentBody comment).toList ∧
      commentBody (commentBody comment) = commentBody comment := by
  have hbody : (commentBody comment).toList =
      separateWithin comment.toList.length comment.toList := by
    rw [commentBody, String.toList_ofList, separateHyphens]
  have hpasses := hyphenPairs_le_length comment.toList
  have hnone := hyphenPairs_separateWithin hpasses
  obtain ⟨n, hn⟩ := separatesIn_separateWithin hpasses
  rw [← hbody] at hnone hn
  refine ⟨⟨n, hn.le_two, hn⟩, ⟨spread comment.toList, spreads_spread _, hn.eq_blanked, ?_⟩,
    not_infix_of_hyphenPairs hnone, ?_⟩
  · exact reduceOption_spread _
  · rw [commentBody, separateHyphens, separateWithin_of_hyphenPairs hnone, String.ofList_toList]

-- the first pass leaves a pair behind the first hyphen
example : commentBody "a --- b" = "a - - - b" := by decide

end FetchQuery.Fetch
