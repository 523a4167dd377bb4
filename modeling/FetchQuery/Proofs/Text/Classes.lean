import FetchQuery.Text.Basic
import FetchQuery.Text.Numeral

/-!
# Classes of characters

How the tables of blanks, letters and numerals stand to each other and to the basic
Latin characters. A word of basic Latin letters, digits and underscores is a word of the
query language (`isWordPart_of_basic`), and no blank continues a word
(`isWordPart_of_isBlank`), so a blank always ends one.
-/

set_option autoImplicit false

namespace FetchQuery.Text

/-- A class that holds one of two characters tells them apart. -/
theorem ne_of_class {p : Char → Bool} {c d : Char} (hc : p c = true) (hd : p d = false) :
    c ≠ d := by
  rintro rfl
  rw [hc] at hd
  exact Bool.noConfusion hd

theorem inRuns_of_mem_head {first last n : Nat} (runs : List (Nat × Nat)) (h₁ : first ≤ n)
    (h₂ : n ≤ last) : inRuns ((first, last) :: runs) n = true := by
  rw [inRuns, if_neg (by omega), if_pos h₂]

theorem inRuns_of_mem_second {first last first' last' n : Nat} (runs : List (Nat × Nat))
    (h₁ : last < n) (h₂ : first ≤ n) (h₃ : first' ≤ n) (h₄ : n ≤ last') :
    inRuns ((first, last) :: (first', last') :: runs) n = true := by
  rw [inRuns, if_neg (by omega), if_neg (by omega)]
  exact inRuns_of_mem_head runs h₃ h₄

/-- The table of letters begins with the two runs of basic Latin letters. -/
theorem letterRuns_eq :
    ∃ runs, letterRuns = (0x41, 0x5a) :: (0x61, 0x7a) :: runs :=
  ⟨_, rfl⟩

/-- The table of numerals begins with the decimal digits. -/
theorem numeralRuns_eq : ∃ runs, numeralRuns = (0x30, 0x39) :: runs :=
  ⟨_, rfl⟩

theorem isAlpha_toNat {c : Char} (h : c.isAlpha = true) :
    0x41 ≤ c.toNat ∧ c.toNat ≤ 0x5a ∨ 0x61 ≤ c.toNat ∧ c.toNat ≤ 0x7a := by
  -- the classes of `Char` are stated on 32-bit codes, the tables on natural numbers
  change (decide (c.val ≥ 'A'.val ∧ c.val ≤ 'Z'.val) ||
    (decide (c.val ≥ 'a'.val) && decide (c.val ≤ 'z'.val))) = true at h
  simpa [UInt32.le_iff_toNat_le] using h

theorem isDigit_toNat {c : Char} (h : c.isDigit = true) : 0x30 ≤ c.toNat ∧ c.toNat ≤ 0x39 := by
  simpa using Char.isDigit_iff_toNat.1 h

/-- Basic Latin letters are letters. -/
theorem isLetter_of_isAlpha {c : Char} (h : c.isAlpha = true) : isLetter c = true := by
  obtain ⟨runs, hruns⟩ := letterRuns_eq
  rw [isLetter, hruns]
  rcases isAlpha_toNat h with ⟨h₁, h₂⟩ | ⟨h₁, h₂⟩
  · exact inRuns_of_mem_head _ h₁ h₂
  · exact inRuns_of_mem_second _ (by omega) (by omega) h₁ h₂

/-- Decimal digits are numerals. -/
theorem isNumeral_of_isDigit {c : Char} (h : c.isDigit = true) : isNumeral c = true := by
  obtain ⟨runs, hruns⟩ := numeralRuns_eq
  obtain ⟨h₁, h₂⟩ := isDigit_toNat h
  rw [isNumeral, hruns]
  exact inRuns_of_mem_head _ h₁ h₂

theorem isWordPart_of_isWordStart {c : Char} (h : isWordStart c = true) : isWordPart c = true := by
  simp only [isWordStart, Bool.or_eq_true] at h
  simp only [isWordPart, Bool.or_eq_true]
  exact h.imp_left Or.inl

/-- The characters that a name may contain without being quoted. -/
def isBasic (c : Char) : Bool :=
  c.isAlphanum || c == '_'

theorem isWordPart_of_basic {c : Char} (h : isBasic c = true) : isWordPart c = true := by
  simp only [isBasic, Char.isAlphanum, Bool.or_eq_true, beq_iff_eq] at h
  rw [isWordPart]
  rcases h with (h | h) | rfl
  · simp [isLetter_of_isAlpha h]
  · simp [isNumeral_of_isDigit h]
  · simp

theorem isWordStart_of_basic {c : Char} (h : (c.isAlpha || c == '_') = true) :
    isWordStart c = true := by
  simp only [Bool.or_eq_true, beq_iff_eq] at h
  rw [isWordStart]
  rcases h with h | rfl
  · simp [isLetter_of_isAlpha h]
  · simp

theorem isBasic_toNat {c : Char} (h : isBasic c = true) :
    0x30 ≤ c.toNat ∧ c.toNat ≤ 0x39 ∨ 0x41 ≤ c.toNat ∧ c.toNat ≤ 0x5a ∨ c.toNat = 0x5f ∨
      0x61 ≤ c.toNat ∧ c.toNat ≤ 0x7a := by
  simp only [isBasic, Char.isAlphanum, Bool.or_eq_true, beq_iff_eq] at h
  rcases h with (h | h) | rfl
  · rcases isAlpha_toNat h with h | h
    · exact Or.inr (Or.inl h)
    · exact Or.inr (Or.inr (Or.inr h))
  · exact Or.inl (isDigit_toNat h)
  · exact Or.inr (Or.inr (Or.inl rfl))

/-- Membership in a table names a run that holds the code point. -/
theorem exists_run_of_inRuns (runs : List (Nat × Nat)) (n : Nat) (h : inRuns runs n = true) :
    ∃ r ∈ runs, r.1 ≤ n ∧ n ≤ r.2 := by
  induction runs with
  | nil => simp [inRuns] at h
  | cons r runs ih =>
    rw [inRuns] at h
    split at h
    · -- the runs ascend, so the search ends at a run that begins behind `n`
      exact absurd h Bool.false_ne_true
    · split at h
      · exact ⟨r, List.mem_cons_self, by omega, by omega⟩
      · obtain ⟨r', hr', hn⟩ := ih h
        exact ⟨r', List.mem_cons_of_mem r hr', hn⟩

/-- Two tables without common runs have no common code point. -/
theorem inRuns_eq_false_of_disjoint {runs runs' : List (Nat × Nat)}
    (hd : ∀ r ∈ runs, ∀ r' ∈ runs', r.2 < r'.1 ∨ r'.2 < r.1) {n : Nat}
    (h : inRuns runs n = true) : inRuns runs' n = false := by
  cases h' : inRuns runs' n with
  | false => rfl
  | true =>
    obtain ⟨r, hr, h₁, h₂⟩ := exists_run_of_inRuns runs n h
    obtain ⟨r', hr', h₃, h₄⟩ := exists_run_of_inRuns runs' n h'
    have := hd r hr r' hr'
    omega

theorem isBlank_of_basic {c : Char} (h : isBasic c = true) : isBlank c = false := by
  cases hb : isBlank c with
  | false => rfl
  | true =>
    obtain ⟨r, hr, h₁, h₂⟩ := exists_run_of_inRuns blankRuns c.toNat hb
    -- every run of blanks lies below the digits or above the letters
    have hout : r.2 < 0x30 ∨ 0x7a < r.1 :=
      (by decide : ∀ r ∈ blankRuns, r.2 < 0x30 ∨ 0x7a < r.1) r hr
    have hrange := isBasic_toNat h
    omega

/-- A blank continues no word: it is no letter, no numeral and no underscore. -/
theorem isWordPart_of_isBlank {c : Char} (h : isBlank c = true) : isWordPart c = false := by
  -- the tables are compared run by run
  have hl : isLetter c = false := inRuns_eq_false_of_disjoint (by decide +kernel) h
  have hn : isNumeral c = false := inRuns_eq_false_of_disjoint (by decide +kernel) h
  have hu : c ≠ '_' := by
    rintro rfl
    exact absurd h (by decide)
  simp [isWordPart, hl, hn, hu]

end FetchQuery.Text
