set_option autoImplicit false

/-! # Searching a text

Whether a text holds another one. The search is for a contiguous stretch, so `px` is found in
`12px` and in `pxx`, and the empty text is found everywhere. -/

namespace FluidCss.Text

/-- Whether `pattern` stands somewhere in the text. -/
def occurs (pattern : List Char) : List Char → Bool
  | [] => pattern.isEmpty
  | c :: cs => pattern.isPrefixOf (c :: cs) || occurs pattern cs

/-- A pattern occurs exactly in the texts that can be cut around it. -/
theorem occurs_iff (pattern cs : List Char) : occurs pattern cs = true ↔ pattern <:+: cs := by
  induction cs with
  | nil => simp [occurs]
  | cons c cs ih => rw [occurs, Bool.or_eq_true, ih, List.isPrefixOf_iff_prefix,
      List.infix_cons_iff]

/-- Whether `pattern` stands somewhere in the string `s`. -/
def contains (s pattern : String) : Bool := occurs pattern.toList s.toList

end FluidCss.Text
