import FetchQuery.Fetch.CommentBody
import Mathlib.Data.List.Infix

/-!
# Comment bodies hold no hyphen pair

A pass of `splitHyphenPairs` leaves fewer pairs of hyphens than it finds
(`hyphenPairs_splitHyphenPairs_le`), and a text has no more pairs than characters. So the passes
that `separateHyphens` allows itself are enough, and a comment body holds no two hyphens in a row
(`not_infix_commentBody`).
-/

set_option autoImplicit false

namespace FetchQuery.Fetch

/-- The number of places at which two hyphens follow each other. -/
def hyphenPairs : List Char → Nat
  | [] => 0
  | c :: cs => (if c = '-' ∧ cs.head? = some '-' then 1 else 0) + hyphenPairs cs

theorem hasHyphenPair_iff {cs : List Char} : hasHyphenPair cs = true ↔ hyphenPairs cs ≠ 0 := by
  induction cs with
  | nil => simp [hasHyphenPair, hyphenPairs]
  | cons c cs ih =>
    rw [hasHyphenPair, hyphenPairs, Bool.or_eq_true, ih]
    by_cases hpair : c = '-' ∧ cs.head? = some '-'
    · simp [hpair]
    · simp [hpair]

theorem hyphenPairs_le_length (cs : List Char) : hyphenPairs cs ≤ cs.length := by
  induction cs with
  | nil => exact Nat.le_refl 0
  | cons c cs ih =>
    rw [hyphenPairs, List.length_cons]
    split <;> omega

/-- Without a pair no two hyphens stand in a row. -/
theorem not_infix_of_hyphenPairs {cs : List Char} (h : hyphenPairs cs = 0) :
    ¬['-', '-'] <:+: cs := by
  induction cs with
  | nil => simp
  | cons c cs ih =>
    rw [hyphenPairs, Nat.add_eq_zero_iff] at h
    rw [List.infix_cons_iff]
    rintro (hstart | hinfix)
    · obtain ⟨hc, hhead⟩ := List.cons_prefix_cons.1 hstart
      have hpair : c = '-' ∧ cs.head? = some '-' := by
        obtain ⟨rest, rfl⟩ := hhead
        exact ⟨hc.symm, rfl⟩
      simp [hpair] at h
    · exact ih h.2 hinfix

theorem head?_splitHyphenPairs (cs : List Char) : (splitHyphenPairs cs).head? = cs.head? := by
  fun_cases splitHyphenPairs cs with
  | case1 => rfl
  | case2 => rfl
  | case3 c d cs h => rw [h.1]; rfl
  | case4 => rfl

/-- A pass leaves fewer pairs than it finds. -/
theorem hyphenPairs_splitHyphenPairs_le (cs : List Char) :
    hyphenPairs (splitHyphenPairs cs) ≤ hyphenPairs cs - 1 := by
  fun_induction splitHyphenPairs cs with
  | case1 => exact Nat.zero_le _
  | case2 c => simp [hyphenPairs]
  | case3 c d cs h ih =>
    -- the pair that is found goes, and one behind it may stay for the next pass
    obtain ⟨rfl, rfl⟩ := h
    have hfound : hyphenPairs ('-' :: '-' :: cs) = 1 + hyphenPairs ('-' :: cs) := rfl
    have hleft : hyphenPairs ('-' :: ' ' :: '-' :: splitHyphenPairs cs) =
        hyphenPairs ('-' :: splitHyphenPairs cs) := by
      simp [hyphenPairs]
    rw [hfound, hleft, hyphenPairs, hyphenPairs, head?_splitHyphenPairs]
    omega
  | case4 c d cs h ih =>
    simp only [hyphenPairs, List.head?_cons, head?_splitHyphenPairs] at ih ⊢
    simp only [Option.some.injEq, h, if_false]
    omega

theorem hyphenPairs_separateWithin {n : Nat} {cs : List Char} (h : hyphenPairs cs ≤ n) :
    hyphenPairs (separateWithin n cs) = 0 := by
  induction n generalizing cs with
  | zero => exact Nat.le_zero.1 h
  | succ n ih =>
    rw [separateWithin]
    split
    · have hle := hyphenPairs_splitHyphenPairs_le cs
      exact ih (by omega)
    · next hnone => exact not_not.1 (mt hasHyphenPair_iff.2 hnone)

theorem hyphenPairs_append_space (cs : List Char) : hyphenPairs (cs ++ [' ']) = hyphenPairs cs := by
  induction cs with
  | nil => rfl
  | cons c cs ih =>
    have hhead : (cs ++ [' ']).head? = some '-' ↔ cs.head? = some '-' := by
      cases cs <;> simp
    simp only [List.cons_append, hyphenPairs, ih, hhead]

/-- A comment body between two blanks holds no two hyphens in a row. -/
theorem not_infix_commentBody (comment : String) :
    ¬['-', '-'] <:+: (" " ++ commentBody comment ++ " ").toList := by
  have hbody : (" " ++ commentBody comment ++ " ").toList =
      ' ' :: (separateHyphens comment.toList ++ [' ']) := by
    simp [commentBody]
  rw [hbody]
  refine not_infix_of_hyphenPairs ?_
  rw [hyphenPairs, hyphenPairs_append_space, separateHyphens,
    hyphenPairs_separateWithin (hyphenPairs_le_length _)]
  rfl

end FetchQuery.Fetch
