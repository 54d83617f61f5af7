set_option autoImplicit false

/-! # Control sequences

A terminal takes some stretches of a text as orders to change color or to move about: an escape
character and an opening bracket, then parameters, then intermediate characters, and a final one.
Each of the three kinds is a range of ASCII characters of its own. Output that is not meant for a
terminal goes without such stretches. -/

namespace FluidCss.Text

/-- Whether a character may stand in the parameters of a control sequence: a digit or one of
`:;<=>?`. -/
def isParameter (c : Char) : Bool := '0' ≤ c && c ≤ '?'

/-- Whether a character may stand between the parameters and the end of a control sequence: a blank
or one of the signs before the digits. -/
def isIntermediate (c : Char) : Bool := ' ' ≤ c && c ≤ '/'

/-- Whether a character ends a control sequence. -/
def isFinal (c : Char) : Bool := '@' ≤ c && c ≤ '~'

/-- The text behind the control sequence that a text starts with, if it starts with one. -/
def afterSequence? : List Char → Option (List Char)
  | '\x1b' :: '[' :: cs =>
    match (cs.dropWhile isParameter).dropWhile isIntermediate with
    | [] => none
    | c :: rest => if isFinal c then some rest else none
  | _ => none

theorem afterSequence?_length_lt (cs rest : List Char) (h : afterSequence? cs = some rest) :
    rest.length < cs.length := by
  unfold afterSequence? at h
  split at h
  · next tail =>
    have hle : ((tail.dropWhile isParameter).dropWhile isIntermediate).length ≤ tail.length :=
      ((List.dropWhile_suffix _).trans (List.dropWhile_suffix _)).length_le
    split at h
    · simp at h
    · next c after hc =>
      rw [hc] at hle
      split at h
      · rw [Option.some.injEq] at h
        subst h
        simp only [List.length_cons] at hle ⊢
        omega
      · simp at h
  · simp at h

/-- The text without its control sequences. -/
def dropSequences (cs : List Char) : List Char :=
  match _h : afterSequence? cs with
  | some rest => dropSequences rest
  | none =>
    match cs with
    | [] => []
    | c :: rest => c :: dropSequences rest
termination_by cs.length
decreasing_by
  · exact afterSequence?_length_lt _ _ _h
  · simp

/-- A text without an escape character is not changed. -/
theorem dropSequences_eq_self (cs : List Char) (h : '\x1b' ∉ cs) : dropSequences cs = cs := by
  fun_induction dropSequences cs with
  | case1 cs rest hs =>
    unfold afterSequence? at hs
    split at hs
    · simp at h
    · simp at hs
  | case2 => rfl
  | case3 c rest _ ih => rw [ih fun hmem => h (by simp [hmem])]

/-- What is shown of a text where control sequences have no meaning. -/
def plain (s : String) : String := String.ofList (dropSequences s.toList)

end FluidCss.Text
