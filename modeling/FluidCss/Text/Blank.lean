set_option autoImplicit false

/-! # Blank characters

What counts as white space in the text of a style sheet, and the two operations that depend on
it: trimming a text and cutting it into words. The class is the one Unicode gives to white space,
together with the four separators U+001C to U+001F. -/

namespace FluidCss.Text

/-- Whether a character is white space. -/
def isBlank (c : Char) : Bool :=
  let n := c.toNat
  (0x09 ≤ n && n ≤ 0x0d) || (0x1c ≤ n && n ≤ 0x20) || n == 0x85 || n == 0xa0 || n == 0x1680 ||
    (0x2000 ≤ n && n ≤ 0x200a) || n == 0x2028 || n == 0x2029 || n == 0x202f || n == 0x205f ||
    n == 0x3000

/-- The text without its leading white space. -/
def trimStart (cs : List Char) : List Char := cs.dropWhile isBlank

/-- The text without its trailing white space. -/
def trimEnd : List Char → List Char
  | [] => []
  | c :: cs =>
    match trimEnd cs with
    | [] => if isBlank c then [] else [c]
    | rest => c :: rest

/-- The text without the white space at both ends. -/
def trim (cs : List Char) : List Char := trimEnd (trimStart cs)

/-- The string without the white space at both ends. -/
def strip (s : String) : String := String.ofList (trim s.toList)

theorem trimEnd_append_blank (cs bs : List Char) (h : ∀ b ∈ bs, isBlank b = true) :
    trimEnd (cs ++ bs) = trimEnd cs := by
  have hbs : trimEnd bs = [] := by
    induction bs with
    | nil => rfl
    | cons b bs ih =>
      have hb := h b (by simp)
      simp [trimEnd, ih fun x hx => h x (by simp [hx]), hb]
  induction cs with
  | nil => simpa [trimEnd] using hbs
  | cons c cs ih => simp [trimEnd, ih]

/-- A text that ends in a character that is not blank keeps its end. -/
theorem trimEnd_append_singleton (cs : List Char) (c : Char) (h : isBlank c = false) :
    trimEnd (cs ++ [c]) = cs ++ [c] := by
  induction cs with
  | nil => simp [trimEnd, h]
  | cons d ds ih =>
    rw [List.cons_append, trimEnd, ih]
    cases ds <;> rfl

/-- Whether a character belongs to a word. -/
def isInk (c : Char) : Bool := !isBlank c

/-- The words of a text: its longest stretches without white space, in order. -/
def words (cs : List Char) : List (List Char) :=
  match _h : trimStart cs with
  | [] => []
  | c :: rest => (c :: rest.takeWhile isInk) :: words (rest.dropWhile isInk)
termination_by cs.length
decreasing_by
  have hstart : (trimStart cs).length ≤ cs.length := (List.dropWhile_suffix isBlank).length_le
  have hword : (rest.dropWhile isInk).length ≤ rest.length :=
    (List.dropWhile_suffix isInk).length_le
  rw [_h, List.length_cons] at hstart
  omega

/-- The words of a string. -/
def wordsOf (s : String) : List String := (words s.toList).map String.ofList

end FluidCss.Text
