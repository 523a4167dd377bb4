import FetchQuery.Decimal
import FetchQuery.Statement

/-!
# Numbers and their texts

The text of a decimal is a run of digits, or two runs around a point
(`Decimal.exists_magnitudeChars`), and reading it gives the decimal back, its scale
included (`Decimal.parse?_text`): no digit of a decimal in range is rounded away. The same
holds for row counts (`rowCount?_rowCountText`).
-/

set_option autoImplicit false

namespace FetchQuery

theorem le_ofDigitChars (cs : List Char) (n : Nat) : n ≤ Nat.ofDigitChars 10 cs n := by
  induction cs generalizing n with
  | nil => simp
  | cons c cs ih =>
    rw [Nat.ofDigitChars_cons]
    have := ih (10 * n + (c.toNat - '0'.toNat))
    omega

theorem ofDigitChars_cons_digitValue (c : Char) (cs : List Char) (n : Nat) :
    Nat.ofDigitChars 10 (c :: cs) n =
      Nat.ofDigitChars 10 cs (n * 10 + Decimal.digitValue c) := by
  rw [Nat.ofDigitChars_cons, Nat.mul_comm]
  rfl

namespace Decimal

/-- Digits before the point are appended to the mantissa as long as the result is in
range. -/
theorem readWhole_append (digits rest : List Char) (seen : Bool) (mantissa : Nat)
    (hd : ∀ c ∈ digits, c.isDigit = true)
    (hr : Nat.ofDigitChars 10 digits mantissa < mantissaLimit) :
    readWhole seen mantissa (digits ++ rest) =
      readWhole (seen || !digits.isEmpty) (Nat.ofDigitChars 10 digits mantissa) rest := by
  induction digits generalizing seen mantissa with
  | nil => simp
  | cons c digits ih =>
    have hc : c.isDigit = true := hd c List.mem_cons_self
    rw [ofDigitChars_cons_digitValue] at hr ⊢
    have hle := le_ofDigitChars digits (mantissa * 10 + digitValue c)
    -- the mantissa only grows, so the bound on its last value holds at every digit
    rw [List.cons_append, readWhole, if_pos hc, if_pos (by omega),
      ih true _ (fun d h => hd d (List.mem_cons_of_mem c h)) hr]
    simp

/-- Digits behind the point are appended as well, and counted, as long as mantissa and
scale are in range. -/
theorem readFraction_digits (digits : List Char) (seen : Bool) (mantissa scale : Nat)
    (hd : ∀ c ∈ digits, c.isDigit = true) (hs : seen = true ∨ digits ≠ [])
    (hr : Nat.ofDigitChars 10 digits mantissa < mantissaLimit) (hl : scale + digits.length ≤ 28) :
    readFraction seen mantissa scale digits =
      some (Nat.ofDigitChars 10 digits mantissa, scale + digits.length) := by
  induction digits generalizing seen mantissa scale with
  | nil =>
    have hseen : seen = true := by simpa using hs
    simp [readFraction, hseen]
  | cons c digits ih =>
    have hc : c.isDigit = true := hd c List.mem_cons_self
    rw [ofDigitChars_cons_digitValue] at hr ⊢
    have hle := le_ofDigitChars digits (mantissa * 10 + digitValue c)
    rw [List.length_cons] at hl ⊢
    rw [readFraction, if_pos hc, if_pos ⟨by omega, by omega⟩,
      ih true _ _ (fun d h => hd d (List.mem_cons_of_mem c h)) (Or.inl rfl) hr (by omega)]
    rw [Nat.add_assoc, Nat.add_comm 1]

/-- Places with the point in front of them; without places there is no point. -/
def pointed : List Char → List Char
  | [] => []
  | c :: cs => '.' :: c :: cs

theorem pointed_of_ne_nil {places : List Char} (h : places ≠ []) :
    pointed places = '.' :: places := by
  cases places with
  | nil => exact absurd rfl h
  | cons c cs => rfl

/-- Digits and places in range are read digit by digit. -/
theorem readWhole_pointed {whole places : List Char} (hwhole : ∀ c ∈ whole, c.isDigit = true)
    (hplaces : ∀ c ∈ places, c.isDigit = true) (hne : whole ≠ [])
    (hvalue : Nat.ofDigitChars 10 (whole ++ places) 0 < mantissaLimit)
    (hscale : places.length ≤ 28) :
    readWhole false 0 (whole ++ pointed places) =
      some (Nat.ofDigitChars 10 (whole ++ places) 0, places.length) := by
  have hseen : (false || !whole.isEmpty) = true := by simp [hne]
  rw [Nat.ofDigitChars_append] at hvalue ⊢
  have hle := le_ofDigitChars places (Nat.ofDigitChars 10 whole 0)
  rw [readWhole_append whole _ false 0 hwhole (by omega), hseen]
  by_cases hnil : places = []
  · -- without places there is no point, and the whole text is one run
    subst hnil
    rfl
  · -- the point ends the first run, and the places are read behind it
    rw [pointed_of_ne_nil hnil, readWhole, if_neg (by decide), if_pos rfl,
      readFraction_digits places true _ 0 hplaces (Or.inl rfl) hvalue (by omega), Nat.zero_add]

/-- The digits of a mantissa with `scale` places, split at the point. -/
structure Places (mantissa scale : Nat) where
  whole : List Char
  places : List Char
  whole_ne_nil : whole ≠ []
  whole_digits : ∀ c ∈ whole, c.isDigit = true
  places_digits : ∀ c ∈ places, c.isDigit = true
  length_places : places.length = scale
  value_eq : Nat.ofDigitChars 10 (whole ++ places) 0 = mantissa
  chars_eq : magnitudeChars mantissa scale =
    if scale = 0 then whole else whole ++ '.' :: places

/-- The characters of a magnitude are its digits with a point before the last `scale`
of them. -/
theorem exists_magnitudeChars (mantissa scale : Nat) : Nonempty (Places mantissa scale) := by
  -- the digits are padded with zeros until one of them stands before the point
  let digits := (Nat.toDigits 10 mantissa).leftpad (scale + 1) '0'
  have hpad : digits = List.replicate (scale + 1 - (Nat.toDigits 10 mantissa).length) '0' ++
      Nat.toDigits 10 mantissa := rfl
  have hlen : scale + 1 ≤ digits.length := by
    rw [List.length_leftpad]
    exact Nat.le_max_left ..
  have hdig : ∀ c ∈ digits, c.isDigit = true := by
    intro c hc
    rw [hpad, List.mem_append, List.mem_replicate] at hc
    rcases hc with ⟨-, rfl⟩ | hc
    · rfl
    · exact Nat.isDigit_of_mem_toDigits (by decide) (by decide) hc
  refine ⟨⟨digits.take (digits.length - scale), digits.drop (digits.length - scale), ?_, ?_, ?_,
    ?_, ?_, rfl⟩⟩
  · intro h
    have := congrArg List.length h
    rw [List.length_take, List.length_nil] at this
    omega
  · exact fun c hc => hdig c (List.mem_of_mem_take hc)
  · exact fun c hc => hdig c (List.mem_of_mem_drop hc)
  · rw [List.length_drop]
    omega
  · rw [List.take_append_drop]
    simp [hpad, Nat.ofDigitChars_append]

theorem Places.chars_eq_pointed {mantissa scale : Nat} (p : Places mantissa scale) :
    magnitudeChars mantissa scale = p.whole ++ pointed p.places := by
  have hlength := p.length_places
  rw [p.chars_eq]
  cases hplaces : p.places with
  | nil =>
    rw [hplaces, List.length_nil] at hlength
    rw [if_pos hlength.symm, pointed, List.append_nil]
  | cons c cs =>
    rw [hplaces, List.length_cons] at hlength
    rw [if_neg (by omega), pointed]

/-- The characters of a magnitude in range are read back digit by digit. -/
theorem readWhole_magnitudeChars (mantissa scale : Nat) (hm : mantissa < mantissaLimit)
    (hs : scale ≤ 28) :
    readWhole false 0 (magnitudeChars mantissa scale) = some (mantissa, scale) := by
  obtain ⟨p⟩ := exists_magnitudeChars mantissa scale
  rw [p.chars_eq_pointed, readWhole_pointed p.whole_digits p.places_digits p.whole_ne_nil
    (by rwa [p.value_eq]) (by rwa [p.length_places]), p.value_eq, p.length_places]

/-- The sign of a decimal is kept: a zero has none to lose. -/
theorem ofParts?_self (d : Decimal) : ofParts? d.negative d.mantissa d.scale = some d := by
  rw [ofParts?, dif_pos ⟨d.mantissa_lt, d.scale_le⟩]
  have hsign : (d.negative && d.mantissa != 0) = d.negative := by
    by_cases h0 : d.mantissa = 0
    · simp [h0, d.unsigned_zero h0]
    · simp [h0]
  obtain ⟨negative, mantissa, scale, h₁, h₂, h₃⟩ := d
  simp only [Option.some.injEq, Decimal.mk.injEq, and_true]
  exact hsign

theorem parseDigits?_magnitudeChars (d : Decimal) :
    parseDigits? d.negative (magnitudeChars d.mantissa d.scale) = some d := by
  rw [parseDigits?, readWhole_magnitudeChars _ _ d.mantissa_lt d.scale_le, Option.bind_some]
  exact ofParts?_self d

/-- A magnitude begins with a digit. -/
theorem head_magnitudeChars (mantissa scale : Nat) :
    ∃ c cs, magnitudeChars mantissa scale = c :: cs ∧ c.isDigit = true := by
  obtain ⟨p⟩ := exists_magnitudeChars mantissa scale
  obtain ⟨c, cs, hw⟩ := List.exists_cons_of_ne_nil p.whole_ne_nil
  have hc : c.isDigit = true := p.whole_digits c (by rw [hw]; exact List.mem_cons_self)
  exact ⟨c, cs ++ pointed p.places, by rw [p.chars_eq_pointed, hw, List.cons_append], hc⟩

/-- No sign is taken off a text that begins with a digit. -/
theorem parseChars?_of_isDigit {c : Char} (hc : c.isDigit = true) (cs : List Char) :
    parseChars? (c :: cs) = parseDigits? false (c :: cs) := by
  unfold parseChars?
  split
  · next h => exact absurd hc (by simp only [List.cons.injEq] at h; rw [h.1]; decide)
  · next h => exact absurd hc (by simp only [List.cons.injEq] at h; rw [h.1]; decide)
  · rfl

/-- Reading the text of a decimal gives the decimal back. -/
theorem parse?_text (d : Decimal) : parse? d.text = some d := by
  rw [parse?, text, String.toList_ofList, chars]
  have hd := parseDigits?_magnitudeChars d
  cases hn : d.negative with
  | true =>
    rw [hn] at hd
    rw [if_pos rfl, parseChars?, hd]
  | false =>
    rw [hn] at hd
    obtain ⟨c, cs, hc, hdigit⟩ := head_magnitudeChars d.mantissa d.scale
    rw [if_neg Bool.false_ne_true, hc, parseChars?_of_isDigit hdigit, ← hc, hd]

/-- Without places the characters are the plain digits. -/
theorem magnitudeChars_zero (n : Nat) : magnitudeChars n 0 = Nat.toDigits 10 n := by
  have hpos : 0 < (Nat.toDigits 10 n).length := List.length_pos_iff.2 Nat.toDigits_ne_nil
  have hpad : (Nat.toDigits 10 n).leftpad 1 '0' = Nat.toDigits 10 n := by
    rw [List.leftpad, Nat.sub_eq_zero_of_le hpos, List.replicate_zero, List.nil_append]
  simp only [magnitudeChars, Nat.zero_add, hpad, Nat.sub_zero, List.take_length, if_true]

end Decimal

/-- Reading the digits of a row count gives the row count back. -/
theorem rowCount?_rowCountText (n : UInt64) : rowCount? (rowCountText n) = some n := by
  have hdig : ∀ c ∈ Nat.toDigits 10 n.toNat, c.isDigit = true := fun c hc =>
    Nat.isDigit_of_mem_toDigits (by decide) (by decide) hc
  have hvalue : digitsValue (Nat.toDigits 10 n.toNat) = n.toNat := Nat.ofDigitChars_ten_toDigits
  rw [rowCount?, rowCountText, String.toList_ofList]
  split
  · -- a plus sign in front is no digit
    next cs h => exact absurd (hdig '+' (by rw [h]; exact List.mem_cons_self)) (by decide)
  · rw [if_pos ⟨Nat.toDigits_ne_nil, by simpa using hdig, by rw [hvalue]; exact n.toNat_lt⟩, hvalue]
    simp

end FetchQuery
