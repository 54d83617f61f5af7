import FluidCss.Number.Shortest

set_option autoImplicit false

/-! # Numerals

How a number is written into a style sheet. Whole numbers below `10 ^ 21` are written out in full;
any other number is written with the shortest digits that are read back, positionally if its point
falls among or near them and in scientific form if not. -/

namespace FluidCss.Number

/-- A decimal is written positionally when its leading digit stands at most this many places before
the point. -/
def maxPlacesBefore : Int := 21

/-- A decimal is written positionally when fewer than this many zeros follow the point. -/
def maxZerosAfter : Int := 6

/-- The decimal digits of a number. -/
def digitChars (n : Nat) : List Char := Nat.toDigits 10 n

/-- A decimal in scientific form: one digit before the point, and the exponent with its sign. -/
def Decimal.scientific (digits : List Char) (exponent : Int) : List Char :=
  let mantissa := match digits with
    | [] => ['0']
    | [d] => [d]
    | d :: rest => d :: '.' :: rest
  mantissa ++ 'e' :: (if exponent < 0 then '-' else '+') :: digitChars exponent.natAbs

/-- The numeral of a decimal. -/
def Decimal.numeral (d : Decimal) : List Char :=
  let digits := digitChars d.coefficient
  -- how many places the leading digit stands before the point
  let places := (digits.length : Int) + d.exponent
  if maxPlacesBefore < places ∨ places ≤ -maxZerosAfter then
    Decimal.scientific digits (places - 1)
  else if places ≤ 0 then
    '0' :: '.' :: (List.replicate (-places).toNat '0' ++ digits)
  else if places < digits.length then
    digits.take places.toNat ++ '.' :: digits.drop places.toNat
  else
    digits ++ List.replicate d.exponent.toNat '0'

/-- The characters that numerals and the names of the numbers without digits are made of. -/
def isNumeralChar (c : Char) : Bool :=
  c.isDigit || ['N', 'a', 'I', 'n', 'f', 'i', 't', 'y', '.', 'e', '+', '-'].contains c

theorem isNumeralChar_of_isDigit {c : Char} (h : c.isDigit = true) : isNumeralChar c = true := by
  rw [isNumeralChar, h, Bool.true_or]

theorem all_isNumeralChar_digitChars (n : Nat) : (digitChars n).all isNumeralChar = true :=
  List.all_eq_true.2 fun _ hc =>
    isNumeralChar_of_isDigit (Nat.isDigit_of_mem_toDigits (by decide) (by decide) hc)

theorem all_isNumeralChar_replicate (n : Nat) :
    (List.replicate n '0').all isNumeralChar = true := by
  rw [List.all_eq_true]
  intro c hc
  rw [List.eq_of_mem_replicate hc]
  rfl

theorem Decimal.all_isNumeralChar_scientific {digits : List Char}
    (h : digits.all isNumeralChar = true) (exponent : Int) :
    (scientific digits exponent).all isNumeralChar = true := by
  have hsign : isNumeralChar (if exponent < 0 then '-' else '+') = true := by split <;> rfl
  unfold scientific
  rw [List.all_append, List.all_cons, List.all_cons, hsign, all_isNumeralChar_digitChars,
    Bool.and_eq_true]
  refine ⟨?_, rfl⟩
  split
  · rfl
  · exact h
  · rw [List.all_cons, Bool.and_eq_true] at h
    rw [List.all_cons, List.all_cons, h.1, h.2]
    rfl

theorem Decimal.all_isNumeralChar_numeral (d : Decimal) :
    d.numeral.all isNumeralChar = true := by
  have hdigits := all_isNumeralChar_digitChars d.coefficient
  unfold numeral
  dsimp only
  split
  · exact all_isNumeralChar_scientific hdigits _
  · split
    · rw [List.all_cons, List.all_cons, List.all_append, all_isNumeralChar_replicate, hdigits]
      rfl
    · split
      · rw [List.all_append, List.all_cons, Bool.and_eq_true, Bool.and_eq_true]
        refine ⟨?_, rfl, ?_⟩
        · exact List.all_eq_true.2 fun c hc =>
            List.all_eq_true.1 hdigits c (List.mem_of_mem_take hc)
        · exact List.all_eq_true.2 fun c hc =>
            List.all_eq_true.1 hdigits c (List.mem_of_mem_drop hc)
      · rw [List.all_append, hdigits, all_isNumeralChar_replicate]
        rfl

namespace Binary64

/-- The whole number that `significand * 2 ^ exponent` is equal to, if there is one. -/
def whole? (significand : Nat) (exponent : Int) : Option Nat :=
  let (num, den) := overPower 2 significand 1 (-exponent)
  if num % den = 0 then some (num / den) else none

/-- The numeral of the positive number `significand * 2 ^ exponent`, or of zero. -/
def unsignedNumeral (significand : Nat) (exponent : Int) : List Char :=
  match whole? significand exponent with
  | some n =>
    if n < Nat.pow 10 21 then digitChars n else (Decimal.shortest significand exponent).numeral
  | none => (Decimal.shortest significand exponent).numeral

/-- The text of a number. Zero has no sign. -/
def text : Binary64 → List Char
  | nan => "NaN".toList
  | infinite false => "Infinity".toList
  | infinite true => "-Infinity".toList
  | finite negative m e =>
    if negative ∧ m ≠ 0 then '-' :: unsignedNumeral m e else unsignedNumeral m e

theorem all_isNumeralChar_unsignedNumeral (significand : Nat) (exponent : Int) :
    (unsignedNumeral significand exponent).all isNumeralChar = true := by
  unfold unsignedNumeral
  split
  · split
    · exact all_isNumeralChar_digitChars _
    · exact Decimal.all_isNumeralChar_numeral _
  · exact Decimal.all_isNumeralChar_numeral _

/-- A number is written with digits, or is named, and nothing else stands in its text. -/
theorem all_isNumeralChar_text (x : Binary64) : x.text.all isNumeralChar = true := by
  cases x with
  | nan => rfl
  | infinite negative => cases negative <;> rfl
  | finite negative m e =>
    change (if negative = true ∧ m ≠ 0 then '-' :: unsignedNumeral m e
      else unsignedNumeral m e).all isNumeralChar = true
    split
    · rw [List.all_cons, all_isNumeralChar_unsignedNumeral]
      rfl
    · exact all_isNumeralChar_unsignedNumeral m e

/-- The text of a number, as a string. -/
def toText (x : Binary64) : String := String.ofList x.text

end Binary64

end FluidCss.Number
