set_option autoImplicit false

/-! # Line breaks

A text file may end its lines with a line feed, a carriage return, or both; read from a file, every
line ends with a line feed. -/

namespace FluidCss.Text

/-- The text with a line feed for every line break. -/
def unifyLineBreaks : List Char → List Char
  | [] => []
  | '\r' :: '\n' :: cs => '\n' :: unifyLineBreaks cs
  | '\r' :: cs => '\n' :: unifyLineBreaks cs
  | c :: cs => c :: unifyLineBreaks cs

/-- No carriage return is left. -/
theorem not_mem_unifyLineBreaks (cs : List Char) : '\r' ∉ unifyLineBreaks cs := by
  fun_induction unifyLineBreaks cs with
  | case1 => simp
  | case2 cs ih => simp [ih]
  | case3 cs _ ih => simp [ih]
  | case4 c cs _ hc ih => simp [ih, Ne.symm hc]

end FluidCss.Text
