import FluidCss.Number.Binary64
import FluidCss.Text.Blank
import FluidCss.Text.DecimalDigit

set_option autoImplicit false

/-! # Decimal literals

The decimal literals that a text may start with: an optional sign; digits with an optional point
and optional further digits, or a point followed by digits; an optional exponent. Digits of all
scripts count. `Literal.read?` takes the longest literal at the front of a text, `Literal.text`
writes it back, and `read?_text` says that nothing is lost in between. -/

namespace FluidCss.Number

open Text

/-- The sign of a literal. -/
inductive Sign where
  | plus
  | minus
deriving DecidableEq, Repr

namespace Sign

/-- The character of a sign. -/
def char : Sign → Char
  | plus => '+'
  | minus => '-'

/-- The sign that a text starts with, if any, and the rest of the text. -/
def read : List Char → Option Sign × List Char
  | '+' :: cs => (some plus, cs)
  | '-' :: cs => (some minus, cs)
  | cs => (none, cs)

/-- An optional sign, written out. -/
def text (s : Option Sign) : List Char := (s.map char).toList

theorem read_text (cs : List Char) : text (read cs).1 ++ (read cs).2 = cs := by
  unfold read
  split <;> rfl

/-- An optional sign applied to a number. -/
def apply (s : Option Sign) (n : Nat) : Int := if s = some minus then -(n : Int) else n

end Sign

/-- The exponent of a literal: its mark, `e` or `E`, its sign and its digits. -/
structure ExponentPart where
  mark : Char
  sign : Option Sign
  digits : List Char
deriving DecidableEq, Repr

namespace ExponentPart

/-- The exponent that a text starts with, if any, and the rest of the text. -/
def read (cs : List Char) : Option ExponentPart × List Char :=
  match cs with
  | [] => (none, cs)
  | mark :: afterMark =>
    if mark = 'e' ∨ mark = 'E' then
      let (sign, afterSign) := Sign.read afterMark
      let digits := afterSign.takeWhile isDigit
      if digits.isEmpty then (none, cs)
      else (some ⟨mark, sign, digits⟩, afterSign.dropWhile isDigit)
    else (none, cs)

/-- An optional exponent, written out. -/
def text : Option ExponentPart → List Char
  | none => []
  | some p => p.mark :: (Sign.text p.sign ++ p.digits)

theorem read_text (cs : List Char) : text (read cs).1 ++ (read cs).2 = cs := by
  unfold read
  split
  · rfl
  · next mark afterMark =>
    dsimp only
    split
    · split
      · rfl
      · simp [text, Sign.read_text]
    · rfl

/-- The power of ten that an exponent stands for. -/
def value : Option ExponentPart → Int
  | none => 0
  | some p => Sign.apply p.sign (digitsValue p.digits)

end ExponentPart

/-- A decimal literal; `fraction` holds the digits after the point if there is one. -/
structure Literal where
  sign : Option Sign
  whole : List Char
  fraction : Option (List Char)
  exponent : Option ExponentPart
deriving DecidableEq, Repr

namespace Literal

/-- The point and the digits after it that a text starts with, if any, and the rest of the text.
Where no digit stands before the point (`bare`), one has to follow it. -/
def readFraction (bare : Bool) (cs : List Char) : Option (List Char) × List Char :=
  match cs with
  | '.' :: rest =>
    let digits := rest.takeWhile isDigit
    if bare && digits.isEmpty then (none, cs) else (some digits, rest.dropWhile isDigit)
  | _ => (none, cs)

/-- The digits after the point, written out with it. -/
def fractionText : Option (List Char) → List Char
  | none => []
  | some digits => '.' :: digits

theorem readFraction_text (bare : Bool) (cs : List Char) :
    fractionText (readFraction bare cs).1 ++ (readFraction bare cs).2 = cs := by
  unfold readFraction
  split
  · dsimp only
    split
    · rfl
    · simp [fractionText]
  · rfl

/-- The longest literal that a text starts with, if any, and the rest of the text. -/
def read? (cs : List Char) : Option (Literal × List Char) :=
  let (sign, afterSign) := Sign.read cs
  let whole := afterSign.takeWhile isDigit
  let (fraction, afterFraction) := readFraction whole.isEmpty (afterSign.dropWhile isDigit)
  if whole.isEmpty && fraction.isNone then none
  else
    let (exponent, rest) := ExponentPart.read afterFraction
    some (⟨sign, whole, fraction, exponent⟩, rest)

/-- A literal, written out. -/
def text (l : Literal) : List Char :=
  Sign.text l.sign ++ l.whole ++ fractionText l.fraction ++ ExponentPart.text l.exponent

/-- What is read and what is left make up the text. -/
theorem read?_text (cs : List Char) (l : Literal) (rest : List Char)
    (h : read? cs = some (l, rest)) : l.text ++ rest = cs := by
  simp only [read?] at h
  split at h
  · simp at h
  · simp only [Option.some.injEq, Prod.mk.injEq] at h
    obtain ⟨rfl, rfl⟩ := h
    simp [text, ExponentPart.read_text, readFraction_text, Sign.read_text]

/-- All digits of a literal before its exponent. -/
def digits (l : Literal) : List Char := l.whole ++ l.fraction.getD []

/-- The number nearest to the value of a literal. -/
def toBinary64 (l : Literal) : Binary64 :=
  Binary64.ofDecimal (l.sign == some .minus) (digitsValue l.digits)
    (ExponentPart.value l.exponent - (l.fraction.getD []).length)

end Literal

/-- The number at the front of a text, after white space; NaN if there is none. -/
def leadingNumber (cs : List Char) : Binary64 :=
  match Literal.read? (trimStart cs) with
  | some (literal, _) => literal.toBinary64
  | none => .nan

end FluidCss.Number
