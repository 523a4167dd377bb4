import FetchQuery.Proofs.Fetch.FilterReading
import FetchQuery.Proofs.Sql.RoundTrip
import Mathlib.Algebra.Group.Nat.Defs

/-!
# The type of a literal

A text of FetchXML becomes a number exactly when it is a numeral in range: digits without a
leading zero, perhaps with a sign and with places, that fit a decimal digit by digit. The words for
truth values become these, and every other text stands for itself (`TypedAs`). In whichever
type, its SQL text is read back as the same literal, and its FetchXML text is the text it came from
(`Literal.ofFetch_exact`).

A numeral is determined by its sign, the value of its digits and its number of places
(`Numeral.chars_eq_of_value_eq`), and every decimal is written as one (`Decimal.exists_numeral`).
So a numeral that is read without rounding is what the number is written as.
-/

set_option autoImplicit false

namespace FetchQuery

/-! ## Digits and their value -/

theorem Decimal.digitValue_lt {c : Char} (h : c.isDigit = true) : digitValue c < 10 := by
  have hzero : '0'.toNat = 48 := rfl
  have hnine : '9'.toNat = 57 := rfl
  rw [Char.isDigit_iff_toNat] at h
  rw [digitValue]
  omega

theorem Decimal.digitValue_inj {c d : Char} (hc : c.isDigit = true) (hd : d.isDigit = true)
    (h : digitValue c = digitValue d) : c = d := by
  rw [Char.isDigit_iff_toNat] at hc hd
  rw [digitValue, digitValue] at h
  exact Char.toNat_inj.1 (by omega)

/-- Digits behind a number move it by their places and add less than one of it. -/
theorem ofDigitChars_bounds (cs : List Char) (n : Nat) (hd : ∀ c ∈ cs, c.isDigit = true) :
    n * 10 ^ cs.length ≤ Nat.ofDigitChars 10 cs n ∧
      Nat.ofDigitChars 10 cs n < (n + 1) * 10 ^ cs.length := by
  induction cs generalizing n with
  | nil => simp
  | cons c cs ih =>
    have hc := Decimal.digitValue_lt (hd c List.mem_cons_self)
    obtain ⟨hle, hlt⟩ := ih (n * 10 + Decimal.digitValue c)
      fun d hmem => hd d (List.mem_cons_of_mem c hmem)
    rw [ofDigitChars_cons_digitValue, List.length_cons, Nat.pow_succ']
    have hle' : n * (10 * 10 ^ cs.length) ≤
        (n * 10 + Decimal.digitValue c) * 10 ^ cs.length := by
      rw [← Nat.mul_assoc]
      exact Nat.mul_le_mul_right _ (Nat.le_add_right _ _)
    have hlt' : (n * 10 + Decimal.digitValue c + 1) * 10 ^ cs.length ≤
        (n + 1) * (10 * 10 ^ cs.length) := by
      rw [← Nat.mul_assoc]
      exact Nat.mul_le_mul_right _ (by omega)
    exact ⟨Nat.le_trans hle' hle, Nat.lt_of_lt_of_le hlt hlt'⟩

/-- Digits of the same number behind two numbers give the same value only if all is the same. -/
theorem ofDigitChars_inj {cs ds : List Char} (hc : ∀ c ∈ cs, c.isDigit = true)
    (hd : ∀ d ∈ ds, d.isDigit = true) (hlength : cs.length = ds.length) {m n : Nat}
    (h : Nat.ofDigitChars 10 cs m = Nat.ofDigitChars 10 ds n) : m = n ∧ cs = ds := by
  induction cs generalizing ds m n with
  | nil =>
    obtain rfl : ds = [] := List.eq_nil_of_length_eq_zero hlength.symm
    exact ⟨h, rfl⟩
  | cons c cs ih =>
    cases ds with
    | nil => simp at hlength
    | cons d ds =>
      rw [ofDigitChars_cons_digitValue, ofDigitChars_cons_digitValue] at h
      obtain ⟨hvalue, rfl⟩ := ih (fun x hx => hc x (List.mem_cons_of_mem c hx))
        (fun x hx => hd x (List.mem_cons_of_mem d hx)) (by simpa using hlength) h
      have hcdigit := hc c List.mem_cons_self
      have hddigit := hd d List.mem_cons_self
      have hclt := Decimal.digitValue_lt hcdigit
      have hdlt := Decimal.digitValue_lt hddigit
      obtain rfl := Decimal.digitValue_inj hcdigit hddigit (by omega)
      exact ⟨by omega, rfl⟩

/-! ## Numerals -/

/-- Digits without a leading zero, perhaps behind a sign and in front of places. -/
structure Numeral where
  negative : Bool
  whole : List Char
  places : List Char
  whole_ne_nil : whole ≠ []
  whole_digits : ∀ c ∈ whole, c.isDigit = true
  places_digits : ∀ c ∈ places, c.isDigit = true
  no_leading_zero : whole.head? = some '0' → whole = ['0']

namespace Numeral

/-- The characters of a numeral. A point stands only in front of places. -/
def chars (n : Numeral) : List Char :=
  (if n.negative then ['-'] else []) ++ (n.whole ++ Decimal.pointed n.places)

/-- All digits of a numeral read as one number. -/
def value (n : Numeral) : Nat :=
  Nat.ofDigitChars 10 (n.whole ++ n.places) 0

/-- The numeral fits a decimal as it is: no digit is rounded away, and no sign of a zero is lost. -/
structure InRange (n : Numeral) : Prop where
  places_le : n.places.length ≤ 28
  value_lt : n.value < 2 ^ 96
  signed : n.negative = true → n.value ≠ 0

/-- The decimal with the sign, the digits and the places of a numeral in range. -/
def decimal (n : Numeral) (h : n.InRange) : Decimal where
  negative := n.negative
  mantissa := n.value
  scale := n.places.length
  mantissa_lt := h.value_lt
  scale_le := h.places_le
  unsigned_zero := fun hzero => Bool.eq_false_iff.2 fun hnegative => h.signed hnegative hzero

/-- The whole digits of a numeral other than zero have their first place filled. -/
theorem pow_le_whole (n : Numeral) (h : n.whole ≠ ['0']) :
    10 ^ (n.whole.length - 1) ≤ Nat.ofDigitChars 10 n.whole 0 := by
  obtain ⟨c, cs, hwhole⟩ := List.exists_cons_of_ne_nil n.whole_ne_nil
  have hzero : c ≠ '0' := by
    rintro rfl
    exact h (n.no_leading_zero (by rw [hwhole]; rfl))
  have hdigits := n.whole_digits
  rw [hwhole] at hdigits ⊢
  have hvalue : 1 ≤ Decimal.digitValue c := by
    refine Nat.one_le_iff_ne_zero.2 fun hc => hzero ?_
    exact Decimal.digitValue_inj (hdigits c List.mem_cons_self) rfl hc
  have hle := (ofDigitChars_bounds cs (0 * 10 + Decimal.digitValue c)
    fun d hd => hdigits d (List.mem_cons_of_mem c hd)).1
  rw [ofDigitChars_cons_digitValue, List.length_cons, Nat.add_sub_cancel]
  calc 10 ^ cs.length = 1 * 10 ^ cs.length := (Nat.one_mul _).symm
    _ ≤ (0 * 10 + Decimal.digitValue c) * 10 ^ cs.length := Nat.mul_le_mul_right _ (by omega)
    _ ≤ _ := hle

theorem length_whole_le {m n : Numeral}
    (h : Nat.ofDigitChars 10 m.whole 0 = Nat.ofDigitChars 10 n.whole 0) :
    m.whole.length ≤ n.whole.length := by
  have hpos := List.length_pos_iff.2 n.whole_ne_nil
  by_cases hm : m.whole = ['0']
  · rw [hm]
    exact hpos
  · have hle := m.pow_le_whole hm
    have hlt := (ofDigitChars_bounds n.whole 0 n.whole_digits).2
    rw [Nat.zero_add, Nat.one_mul, ← h] at hlt
    have := (Nat.pow_lt_pow_iff_right (by decide)).1 (Nat.lt_of_le_of_lt hle hlt)
    omega

/-- Sign, value and number of places determine how a numeral is written. -/
theorem chars_eq_of_value_eq {m n : Numeral} (hsign : m.negative = n.negative)
    (hvalue : m.value = n.value) (hplaces : m.places.length = n.places.length) :
    m.chars = n.chars := by
  rw [value, value, Nat.ofDigitChars_append, Nat.ofDigitChars_append] at hvalue
  obtain ⟨hwhole, hp⟩ := ofDigitChars_inj m.places_digits n.places_digits hplaces hvalue
  have hlength := Nat.le_antisymm (length_whole_le hwhole) (length_whole_le hwhole.symm)
  obtain ⟨-, hw⟩ := ofDigitChars_inj m.whole_digits n.whole_digits hlength hwhole
  rw [chars, chars, hsign, hw, hp]

theorem whole_append_pointed (n : Numeral) :
    ∃ c cs, n.whole ++ Decimal.pointed n.places = c :: cs ∧ c.isDigit = true := by
  obtain ⟨c, cs, hwhole⟩ := List.exists_cons_of_ne_nil n.whole_ne_nil
  refine ⟨c, cs ++ Decimal.pointed n.places, by rw [hwhole, List.cons_append], ?_⟩
  exact n.whole_digits c (by rw [hwhole]; exact List.mem_cons_self)

theorem isUnsignedNumber_whole (n : Numeral) :
    Literal.isUnsignedNumber (n.whole ++ Decimal.pointed n.places) = true := by
  have hfirst : (n.whole == ['0'] || n.whole.head?.any (· != '0')) = true := by
    obtain ⟨c, cs, hwhole⟩ := List.exists_cons_of_ne_nil n.whole_ne_nil
    by_cases hc : c = '0'
    · rw [n.no_leading_zero (by rw [hwhole, hc]; rfl)]
      rfl
    · simp [hwhole, hc]
  have htake : (n.whole ++ Decimal.pointed n.places).takeWhile Char.isDigit = n.whole := by
    rw [List.takeWhile_append_of_pos n.whole_digits]
    cases n.places <;> simp [Decimal.pointed]
  have hdrop : (n.whole ++ Decimal.pointed n.places).dropWhile Char.isDigit =
      Decimal.pointed n.places := by
    rw [List.dropWhile_append_of_pos n.whole_digits]
    cases n.places <;> simp [Decimal.pointed]
  have hfraction : Literal.isFraction (Decimal.pointed n.places) = true := by
    have hplaces := n.places_digits
    cases h : n.places with
    | nil => rfl
    | cons c cs =>
      rw [h] at hplaces
      simpa [Decimal.pointed, Literal.isFraction] using hplaces
  simp only [Literal.isUnsignedNumber, htake, hdrop, hfirst, hfraction, Bool.and_self]

theorem isNumber_chars (n : Numeral) : Literal.isNumber n.chars = true := by
  have hunsigned := n.isUnsignedNumber_whole
  rw [chars]
  cases n.negative with
  | true => exact hunsigned
  | false =>
    obtain ⟨c, cs, hchars, hc⟩ := n.whole_append_pointed
    rw [hchars] at hunsigned
    rw [if_neg Bool.false_ne_true, hchars, List.nil_append]
    unfold Literal.isNumber
    split
    · next h => exact absurd hc (by simp only [List.cons.injEq] at h; rw [h.1]; decide)
    · exact hunsigned

/-- A numeral in range is read digit by digit. -/
theorem parseChars?_chars (n : Numeral) (h : n.InRange) :
    Decimal.parseChars? n.chars = some (n.decimal h) := by
  have hdigits : Decimal.parseDigits? n.negative (n.whole ++ Decimal.pointed n.places) =
      some (n.decimal h) := by
    rw [Decimal.parseDigits?, Decimal.readWhole_pointed n.whole_digits n.places_digits
      n.whole_ne_nil h.value_lt h.places_le]
    exact Decimal.ofParts?_self (n.decimal h)
  rw [chars]
  cases hnegative : n.negative with
  | true =>
    rw [hnegative] at hdigits
    exact hdigits
  | false =>
    obtain ⟨c, cs, hchars, hc⟩ := n.whole_append_pointed
    rw [hnegative, hchars] at hdigits
    rw [if_neg Bool.false_ne_true, List.nil_append, hchars, Decimal.parseChars?_of_isDigit hc,
      hdigits]

end Numeral

/-! ## Decimals as numerals -/

namespace Decimal

theorem Places.length_whole {mantissa scale : Nat} (p : Places mantissa scale) :
    p.whole.length = max (scale + 1) (Nat.toDigits 10 mantissa).length - scale := by
  have hlength := congrArg List.length p.chars_eq
  rw [magnitudeChars] at hlength
  have hplaces := p.length_places
  by_cases hscale : scale = 0
  · simp only [hscale, if_true, List.length_take, List.length_leftpad] at hlength
    omega
  · simp only [if_neg hscale, List.length_append, List.length_take, List.length_cons,
      List.length_drop, List.length_leftpad] at hlength
    omega

/-- Zeros are written in front only to have a digit before the point. -/
theorem Places.no_leading_zero {mantissa scale : Nat} (p : Places mantissa scale)
    (h : p.whole.head? = some '0') : p.whole = ['0'] := by
  obtain ⟨cs, hwhole⟩ : ∃ cs, p.whole = '0' :: cs := List.head?_eq_some_iff.1 h
  by_cases hcs : cs = []
  · rw [hwhole, hcs]
  · exfalso
    -- the digits behind the first one make up the whole value, which needs them all
    have hdigits : ∀ c ∈ cs ++ p.places, c.isDigit = true := fun c hc =>
      (List.mem_append.1 hc).elim
        (fun hmem => p.whole_digits c (by rw [hwhole]; exact List.mem_cons_of_mem _ hmem))
        (p.places_digits c)
    have hlt := (ofDigitChars_bounds (cs ++ p.places) 0 hdigits).2
    have hvalue : Nat.ofDigitChars 10 (cs ++ p.places) 0 = mantissa := by
      have := p.value_eq
      rwa [hwhole, List.cons_append, ofDigitChars_cons_digitValue] at this
    rw [hvalue, Nat.zero_add, Nat.one_mul, List.length_append, p.length_places] at hlt
    have hpos := List.length_pos_iff.2 hcs
    have hle := (Nat.length_toDigits_le_iff (by decide) (by omega)).2 hlt
    have hlength := p.length_whole
    rw [hwhole, List.length_cons] at hlength
    omega

/-- Every decimal is written as a numeral of its parts. -/
theorem exists_numeral (d : Decimal) :
    ∃ n : Numeral, n.chars = d.chars ∧ n.negative = d.negative ∧ n.value = d.mantissa ∧
      n.places.length = d.scale := by
  obtain ⟨p⟩ := exists_magnitudeChars d.mantissa d.scale
  refine ⟨⟨d.negative, p.whole, p.places, p.whole_ne_nil, p.whole_digits, p.places_digits,
    p.no_leading_zero⟩, ?_, rfl, p.value_eq, p.length_places⟩
  rw [Numeral.chars, chars, p.chars_eq_pointed]
  cases d.negative <;> rfl

end Decimal

/-- A numeral in range is how its decimal is written. -/
theorem Numeral.chars_decimal (n : Numeral) (h : n.InRange) : (n.decimal h).chars = n.chars := by
  obtain ⟨m, hchars, hsign, hvalue, hplaces⟩ := (n.decimal h).exists_numeral
  rw [← hchars]
  exact chars_eq_of_value_eq hsign hvalue hplaces

/-! ## Literals -/

namespace Literal

theorem ofFetch_eq_number_iff {t : String} {d : Decimal} :
    ofFetch t = .number d ↔ exactNumber? t = some d := by
  rw [ofFetch]
  split
  · next value h => rw [h, Literal.number.injEq, Option.some.injEq]
  · next h =>
    rw [h]
    refine iff_of_false ?_ (by simp)
    split_ifs <;> simp

/-- A numeral in range is typed as its decimal. -/
theorem ofFetch_of_chars {t : String} {n : Numeral} (h : n.InRange) (hchars : n.chars = t.toList) :
    ofFetch t = .number (n.decimal h) := by
  have hparse : Decimal.parse? t = some (n.decimal h) := by
    rw [Decimal.parse?, ← hchars, n.parseChars?_chars h]
  have htext : (n.decimal h).text = t := by
    rw [Decimal.text, n.chars_decimal h, hchars, String.ofList_toList]
  have hnumber : isNumber t.toList = true := by
    rw [← hchars]
    exact n.isNumber_chars
  rw [ofFetch_eq_number_iff, exactNumber?, if_pos hnumber, hparse]
  exact Option.filter_some_pos (beq_iff_eq.2 htext)

/-- A text is typed as a number exactly if it is a numeral in range. -/
theorem exists_number_iff (t : String) :
    (∃ d, ofFetch t = .number d) ↔ ∃ n : Numeral, n.chars = t.toList ∧ n.InRange := by
  constructor
  · rintro ⟨d, hd⟩
    have htext := fetchText_ofFetch t
    rw [hd, fetchText] at htext
    obtain ⟨n, hchars, hsign, hvalue, hplaces⟩ := d.exists_numeral
    refine ⟨n, by rw [hchars, ← htext, Decimal.text, String.toList_ofList], ?_⟩
    refine ⟨hplaces ▸ d.scale_le, hvalue ▸ d.mantissa_lt, fun hnegative hzero => ?_⟩
    rw [hsign, d.unsigned_zero (hvalue.symm.trans hzero)] at hnegative
    exact Bool.false_ne_true hnegative
  · rintro ⟨n, hchars, h⟩
    exact ⟨n.decimal h, ofFetch_of_chars h hchars⟩

/-- The literal that a text stands for: a number if it is a numeral in range, a truth value if it is
the word for one, and otherwise the text itself. -/
inductive TypedAs (t : String) : Literal → Prop
  | number {n : Numeral} (h : n.InRange) (hchars : n.chars = t.toList) :
    TypedAs t (.number (n.decimal h))
  | yes (h : t = "true") : TypedAs t (.truth true)
  | no (h : t = "false") : TypedAs t (.truth false)
  | text (hnumber : ¬ ∃ n : Numeral, n.chars = t.toList ∧ n.InRange) (htrue : t ≠ "true")
    (hfalse : t ≠ "false") : TypedAs t (.text t)

theorem exactNumber?_eq_none_iff {t : String} :
    exactNumber? t = none ↔ ¬ ∃ n : Numeral, n.chars = t.toList ∧ n.InRange := by
  rw [← exists_number_iff, not_exists]
  simp only [ofFetch_eq_number_iff]
  exact Option.eq_none_iff_forall_ne_some

theorem typedAs_iff {t : String} {value : Literal} : TypedAs t value ↔ ofFetch t = value := by
  constructor
  · intro h
    cases h with
    | number h hchars => exact ofFetch_of_chars h hchars
    | yes h =>
      subst h
      decide +kernel
    | no h =>
      subst h
      decide +kernel
    | text hnumber htrue hfalse =>
      rw [ofFetch, exactNumber?_eq_none_iff.2 hnumber]
      simp only [if_neg htrue, if_neg hfalse]
  · rintro rfl
    by_cases hnumber : ∃ n : Numeral, n.chars = t.toList ∧ n.InRange
    · obtain ⟨n, hchars, h⟩ := hnumber
      rw [ofFetch_of_chars h hchars]
      exact .number h hchars
    · rw [ofFetch, exactNumber?_eq_none_iff.2 hnumber]
      by_cases htrue : t = "true"
      · simp only [if_pos htrue]
        exact .yes htrue
      by_cases hfalse : t = "false"
      · simp only [if_neg htrue, if_pos hfalse]
        exact .no hfalse
      · simp only [if_neg htrue, if_neg hfalse]
        exact .text hnumber htrue hfalse

theorem forall₂_typedAs_iff {texts : List String} {values : List Literal} :
    List.Forall₂ TypedAs texts values ↔ texts.map ofFetch = values := by
  rw [← List.forall₂_eq_eq_eq, List.forall₂_map_left_iff]
  exact ⟨fun h => h.imp fun _ _ => typedAs_iff.1, fun h => h.imp fun _ _ => typedAs_iff.2⟩

end Literal

namespace Sql

/-- The SQL text of a literal is read to its end as the literal. -/
theorem literal_sql (value : Literal) :
    ∃ start rest, Cursor.ofSource value.sql = .ok start ∧ literal start = .ok value rest ∧
      rest.current.kind = .endOfInput ∧ rest.ahead = [] := by
  have htokens : (tokenize value.sql).map Token.lexeme = value.lexemes ++ [endLexeme] := by
    have hspells := spells_literal value [] (before_nil endsPhrase)
    rw [List.append_nil, lexemes_nil, List.append_nil] at hspells
    rw [map_lexeme_tokenize, hspells, endLexeme]
  have hplain : Plain True (value.lexemes ++ [endLexeme]) := by
    rw [plain_append, plain_cons]
    exact ⟨plain_literal value, ⟨rfl, fun _ => rfl⟩, plain_nil⟩
  obtain ⟨l, ls, hls⟩ : ∃ l ls, value.lexemes ++ [endLexeme] = l :: ls :=
    List.exists_cons_of_ne_nil (by simp)
  rw [hls] at hplain htokens
  have hfirst : l.kind.isPlain = true := (hplain l List.mem_cons_self).2 trivial
  have htokens' : (tokenize value.sql).map Token.lexeme = [].map ofComment ++ l :: ls := htokens
  obtain ⟨start, hstart, hsees, -⟩ := moveOn_comments hfirst hplain htokens'
    ⟨.endOfInput, "", Position.start⟩ []
  rw [← hls] at hsees
  rcases reads_literal value [endLexeme] start (by simp) hsees with
    ⟨_, rest, hread, rfl, hrest, -⟩ | ⟨hnot, -⟩
  · obtain ⟨hend, hahead⟩ := List.cons.inj hrest.kinds_eq
    refine ⟨start, rest, ?_, hread, hend, List.map_eq_nil_iff.1 hahead⟩
    rw [Cursor.ofSource, Cursor.ofTokens, hstart]
  · exact absurd trivial hnot

end Sql

/-- A text becomes a number exactly if it is a numeral in range. Its SQL text is read to the end as
the literal it became, and its text in FetchXML is still the same. -/
theorem Literal.ofFetch_exact (t : String) :
    ((∃ d, ofFetch t = .number d) ↔ ∃ n : Numeral, n.chars = t.toList ∧ n.InRange) ∧
      (∃ start rest, Sql.Cursor.ofSource (ofFetch t).sql = .ok start ∧
        Sql.literal start = .ok (ofFetch t) rest ∧ rest.current.kind = .endOfInput ∧
        rest.ahead = []) ∧
      (ofFetch t).fetchText = t :=
  ⟨exists_number_iff t, Sql.literal_sql (ofFetch t), fetchText_ofFetch t⟩

end FetchQuery
