import FluidCss.Text.Printable

set_option autoImplicit false

/-! # Quoted text in messages

How a message shows a piece of text. Single quotes stand around it, or double quotes if the text
has a single quote and no double one; the quote and the backslash are escaped inside, and so is
every character that is not printable. -/

namespace FluidCss.Text

/-- The lower-case hexadecimal digit of `d`. -/
def hexDigit (d : Nat) : Char := Nat.digitChar (d % 16)

/-- The last `width` hexadecimal digits of `n`, the most significant first. -/
def hexDigits : Nat → Nat → List Char
  | 0, _ => []
  | width + 1, n => hexDigits width (n / 16) ++ [hexDigit n]

/-- A character that is not printable, by its code point in a fixed number of digits. -/
def escapeCode (c : Char) : List Char :=
  let n := c.toNat
  if n < 0x100 then '\\' :: 'x' :: hexDigits 2 n
  else if n < 0x10000 then '\\' :: 'u' :: hexDigits 4 n
  else '\\' :: 'U' :: hexDigits 8 n

/-- A character inside quotes. -/
def escape (quote c : Char) : List Char :=
  if c = quote ∨ c = '\\' then ['\\', c]
  else if c = '\n' then ['\\', 'n']
  else if c = '\r' then ['\\', 'r']
  else if c = '\t' then ['\\', 't']
  else if isPrintable c then [c]
  else escapeCode c

/-- The quote that stands around a text. -/
def quoteFor (cs : List Char) : Char :=
  if cs.contains '\x27' && !cs.contains '\x22' then '\x22' else '\x27'

/-- A text between quotes. -/
def quotedChars (cs : List Char) : List Char :=
  let quote := quoteFor cs
  quote :: cs.flatMap (escape quote) ++ [quote]

/-- A string between quotes. -/
def quoted (s : String) : String := String.ofList (quotedChars s.toList)

end FluidCss.Text
