/-!
# Decimal numbers

A decimal is a sign, a mantissa below `2 ^ 96` and a scale of at most 28 digits
behind the point. The scale is part of the number: `10.50` and `10.5` are written
differently and are different decimals here. Zero carries no sign.

`parse?` reads digits from left to right. Digits before the point must fit. Behind
the point the first digit that no longer fits only rounds, half upwards, and what
follows it has no influence.

Separators behind a digit are passed over, with one exception: directly behind the last
place a separator ends a number whose digits before that place are short.
-/

set_option autoImplicit false

namespace FetchQuery

/-- The bound on mantissas, which is `2 ^ 96`. -/
def Decimal.mantissaLimit : Nat :=
  UInt32.size * UInt64.size

/-- A signed decimal number with a fixed number of digits behind the point. -/
structure Decimal where
  negative : Bool
  mantissa : Nat
  scale : Nat
  mantissa_lt : mantissa < Decimal.mantissaLimit
  scale_le : scale ≤ 28
  unsigned_zero : mantissa = 0 → negative = false
deriving DecidableEq

namespace Decimal

/-- The decimal with the given parts, when they are in range; zero loses its sign. -/
def ofParts? (negative : Bool) (mantissa scale : Nat) : Option Decimal :=
  if h : mantissa < mantissaLimit ∧ scale ≤ 28 then
    some ⟨negative && mantissa != 0, mantissa, scale, h.1, h.2, by
      intro zero
      simp [zero]⟩
  else none

/-- The value of a decimal digit. -/
def digitValue (c : Char) : Nat :=
  c.toNat - '0'.toNat

/-- Mantissa and scale after the digit `digit` that no longer fits. A mantissa that
overflows by rounding up gives up one place, if there is one. -/
def roundLast (mantissa scale digit : Nat) : Option (Nat × Nat) :=
  if digit < 5 then some (mantissa, scale)
  else if mantissa + 1 < mantissaLimit then some (mantissa + 1, scale)
  else if scale = 0 then none
  else some ((mantissa + 5) / 10, scale - 1)

/-- The bound on short digits: below it a mantissa takes one more digit and still fits 64
bits, with a margin of 255. -/
def shortLimit : Nat :=
  (UInt64.size - 1) / 10 - 255

/-- Whether a separator behind `scale` places ends the number: the last place has been
read, and the digits before it are short. -/
def endsAtSeparator (mantissa scale : Nat) : Bool :=
  28 ≤ scale && mantissa / 10 < shortLimit

/-- Reads the digits behind the point onto a mantissa with `scale` places. A digit fits
while there are fewer than 28 places and the mantissa stays in range. `seen` tells
whether a digit has been read. -/
def readFraction (seen : Bool) (mantissa scale : Nat) : List Char → Option (Nat × Nat)
  | [] => if seen then some (mantissa, scale) else none
  | c :: cs =>
    if c.isDigit then
      if scale < 28 ∧ mantissa * 10 + digitValue c < mantissaLimit then
        readFraction true (mantissa * 10 + digitValue c) (scale + 1) cs
      else roundLast mantissa scale (digitValue c)
    else if c = '_' ∧ seen then
      if endsAtSeparator mantissa scale then some (mantissa, scale)
      else readFraction seen mantissa scale cs
    else none

/-- Reads the digits before the point and what follows them. -/
def readWhole (seen : Bool) (mantissa : Nat) : List Char → Option (Nat × Nat)
  | [] => if seen then some (mantissa, 0) else none
  | c :: cs =>
    if c.isDigit then
      if mantissa * 10 + digitValue c < mantissaLimit then
        readWhole true (mantissa * 10 + digitValue c) cs
      else none
    else if c = '.' then readFraction seen mantissa 0 cs
    else if c = '_' ∧ seen then readWhole seen mantissa cs
    else none

/-- The decimal whose digits the characters spell, with the given sign. -/
def parseDigits? (negative : Bool) (cs : List Char) : Option Decimal :=
  (readWhole false 0 cs).bind fun (mantissa, scale) => ofParts? negative mantissa scale

/-- The decimal that a character list spells, if it is one in range. -/
def parseChars? : List Char → Option Decimal
  | '-' :: cs => parseDigits? true cs
  | '+' :: cs => parseDigits? false cs
  | cs => parseDigits? false cs

/-- The decimal that a text spells, if it is one in range. -/
def parse? (s : String) : Option Decimal :=
  parseChars? s.toList

/-- The characters of a mantissa with `scale` places: a point before the last
`scale` digits and at least one digit in front of it. -/
def magnitudeChars (mantissa scale : Nat) : List Char :=
  let digits := (Nat.toDigits 10 mantissa).leftpad (scale + 1) '0'
  let whole := digits.take (digits.length - scale)
  if scale = 0 then whole else whole ++ '.' :: digits.drop (digits.length - scale)

/-- The characters of a decimal. -/
def chars (d : Decimal) : List Char :=
  if d.negative then '-' :: magnitudeChars d.mantissa d.scale
  else magnitudeChars d.mantissa d.scale

/-- The text of a decimal: all its places, without leading zeros. -/
def text (d : Decimal) : String :=
  String.ofList d.chars

end Decimal

end FetchQuery
