import FluidCss.Text.Blank

set_option autoImplicit false

/-! # Kinds of tokens

The kinds of tokens that a style sheet is made of, and for each kind how it is split off the front
of a text. A kind always takes as much as it can: the main statement, `split?_append`, says that
what is split off and what is left make up the text, and that something is split off. -/

namespace FluidCss

open Text

/-- A kind of token. -/
inductive Terminal where
  /-- A text that runs up to an opening brace. -/
  | selector
  /-- The value of a declaration. -/
  | value
  /-- The name of a declaration. -/
  | property
  /-- The name of an at-rule with the sign before it. -/
  | atKeyword
  /-- A comment. -/
  | comment
  /-- What stands between the name of an at-rule and its block or semicolon. -/
  | atParams
  /-- White space between tokens. -/
  | blank
  | colon
  | openBrace
  | closeBrace
  | semicolon
deriving DecidableEq, Repr

namespace Terminal

/-- All kinds, in the order in which they are tried. -/
def all : List Terminal :=
  [selector, value, property, atKeyword, comment, atParams, blank, colon, openBrace, closeBrace,
    semicolon]

/-- Whether tokens of the kind are left out wherever they stand. -/
def isSkipped : Terminal → Bool
  | comment | blank => true
  | _ => false

/-! ## Classes of characters -/

/-- The characters that end a selector or the parameters of an at-rule. -/
def isDelimiter (c : Char) : Bool := c == '\x7b' || c == '\x7d' || c == ';'

/-- The characters that run on in a selector or in parameters. -/
def isPlain (c : Char) : Bool := !isDelimiter c

/-- The characters that a name can start with. -/
def isNameStart (c : Char) : Bool := c.isAlpha || c == '_'

/-- The characters that a property name goes on with. -/
def isNamePart (c : Char) : Bool := c.isAlphanum || c == '_' || c == '-'

/-- The characters that the name of an at-rule goes on with. -/
def isKeywordPart (c : Char) : Bool := c.isAlphanum || c == '-'

/-- The white space that stands between tokens. -/
def isGap (c : Char) : Bool :=
  c == ' ' || c == '\t' || c == '\x0c' || c == '\r' || c == '\n'

/-! ## Parts of a value -/

/-- The rest of a quoted string with its closing quote. A backslash takes the next character with
it, and a line feed ends the attempt. -/
def stringRest? (quote : Char) : List Char → Option (List Char × List Char)
  | [] => none
  | '\\' :: [] => none
  | '\\' :: c :: cs =>
    if c = '\n' then none
    else (stringRest? quote cs).map fun (lexeme, rest) => ('\\' :: c :: lexeme, rest)
  | c :: cs =>
    if c = quote then some ([c], cs)
    else if c = '\n' then none
    else (stringRest? quote cs).map fun (lexeme, rest) => (c :: lexeme, rest)

/-- A text up to and with its first closing parenthesis. -/
def throughParenthesis? : List Char → Option (List Char × List Char)
  | [] => none
  | c :: cs =>
    if c = ')' then some ([c], cs)
    else (throughParenthesis? cs).map fun (lexeme, rest) => (c :: lexeme, rest)

/-- A `url(...)`, in upper or lower case. -/
def url? : List Char → Option (List Char × List Char)
  | u :: r :: l :: '(' :: cs =>
    if (u = 'u' ∨ u = 'U') ∧ (r = 'r' ∨ r = 'R') ∧ (l = 'l' ∨ l = 'L') then
      (throughParenthesis? cs).map fun (lexeme, rest) => (u :: r :: l :: '(' :: lexeme, rest)
    else none
  | _ => none

/-- A piece of a value: a quoted string, a `url(...)`, or a single character that is neither a
quote nor a delimiter. -/
def piece? (cs : List Char) : Option (List Char × List Char) :=
  match cs with
  | [] => none
  | c :: rest =>
    if c = '\x22' ∨ c = '\x27' then
      (stringRest? c rest).map fun (lexeme, after) => (c :: lexeme, after)
    else
      match url? cs with
      | some cut => some cut
      | none => if isDelimiter c then none else some ([c], rest)

theorem stringRest?_append (quote : Char) (cs lexeme rest : List Char)
    (h : stringRest? quote cs = some (lexeme, rest)) : lexeme ++ rest = cs := by
  fun_induction stringRest? quote cs generalizing lexeme rest with
  | case1 => simp at h
  | case2 => simp at h
  | case3 => simp at h
  | case4 c cs hc ih =>
    simp only [Option.map_eq_some_iff, Prod.exists, Prod.mk.injEq] at h
    obtain ⟨l, r, hl, rfl, rfl⟩ := h
    simp [ih l r hl]
  | case5 cs =>
    simp only [Option.some.injEq, Prod.mk.injEq] at h
    obtain ⟨rfl, rfl⟩ := h
    rfl
  | case6 cs => simp at h
  | case7 c cs _ _ _ _ ih =>
    simp only [Option.map_eq_some_iff, Prod.exists, Prod.mk.injEq] at h
    obtain ⟨l, r, hl, rfl, rfl⟩ := h
    simp [ih l r hl]

theorem throughParenthesis?_append (cs lexeme rest : List Char)
    (h : throughParenthesis? cs = some (lexeme, rest)) : lexeme ++ rest = cs := by
  fun_induction throughParenthesis? cs generalizing lexeme rest with
  | case1 => simp at h
  | case2 cs =>
    simp only [Option.some.injEq, Prod.mk.injEq] at h
    obtain ⟨rfl, rfl⟩ := h
    rfl
  | case3 c cs _ ih =>
    simp only [Option.map_eq_some_iff, Prod.exists, Prod.mk.injEq] at h
    obtain ⟨l, r, hl, rfl, rfl⟩ := h
    simp [ih l r hl]

theorem url?_append (cs lexeme rest : List Char) (h : url? cs = some (lexeme, rest)) :
    lexeme ++ rest = cs ∧ lexeme ≠ [] := by
  unfold url? at h
  split at h
  · split at h
    · simp only [Option.map_eq_some_iff, Prod.exists, Prod.mk.injEq] at h
      obtain ⟨l, r, hl, rfl, rfl⟩ := h
      simp [throughParenthesis?_append _ l r hl]
    · simp at h
  · simp at h

theorem piece?_append (cs lexeme rest : List Char) (h : piece? cs = some (lexeme, rest)) :
    lexeme ++ rest = cs ∧ lexeme ≠ [] := by
  unfold piece? at h
  split at h
  · simp at h
  · next c tail =>
    split at h
    · simp only [Option.map_eq_some_iff, Prod.exists, Prod.mk.injEq] at h
      obtain ⟨l, r, hl, rfl, rfl⟩ := h
      simp [stringRest?_append _ _ l r hl]
    · split at h
      · next cut hcut =>
        rw [Option.some.injEq] at h
        subst h
        exact url?_append _ _ _ hcut
      · split at h
        · simp at h
        · simp only [Option.some.injEq, Prod.mk.injEq] at h
          obtain ⟨rfl, rfl⟩ := h
          simp

theorem piece?_length_lt (cs lexeme rest : List Char) (h : piece? cs = some (lexeme, rest)) :
    rest.length < cs.length := by
  obtain ⟨happ, hne⟩ := piece?_append cs lexeme rest h
  have := List.length_pos_iff.2 hne
  rw [← happ, List.length_append]
  omega

/-- The pieces of a value at the front of a text, as many as there are. -/
def pieces (cs : List Char) : List Char × List Char :=
  match _h : piece? cs with
  | none => ([], cs)
  | some (lexeme, rest) => (lexeme ++ (pieces rest).1, (pieces rest).2)
termination_by cs.length
decreasing_by all_goals exact piece?_length_lt _ _ _ _h

theorem pieces_append (cs : List Char) : (pieces cs).1 ++ (pieces cs).2 = cs := by
  fun_induction pieces cs with
  | case1 => rfl
  | case2 cs lexeme rest h ih => rw [List.append_assoc, ih]; exact (piece?_append _ _ _ h).1

/-! ## Tokens of each kind -/

/-- Splits off the characters of a class, if there are any. -/
def run? (p : Char → Bool) (cs : List Char) : Option (List Char × List Char) :=
  let lexeme := cs.takeWhile p
  if lexeme.isEmpty then none else some (lexeme, cs.dropWhile p)

/-- Splits off a single character. -/
def mark? (mark : Char) : List Char → Option (List Char × List Char)
  | [] => none
  | c :: cs => if c = mark then some ([c], cs) else none

/-- A character of one class followed by all characters of another. -/
def headed? (head tail : Char → Bool) : List Char → Option (List Char × List Char)
  | [] => none
  | c :: cs => if head c then some (c :: cs.takeWhile tail, cs.dropWhile tail) else none

/-- Parameters start with no blank and run up to a delimiter. -/
def splitParams? (cs : List Char) : Option (List Char × List Char) :=
  headed? (fun c => !isBlank c && isPlain c) isPlain cs

/-- A selector starts with no blank, at sign or slash and runs up to an opening brace. -/
def splitSelector? (cs : List Char) : Option (List Char × List Char) :=
  match headed? (fun c => !isBlank c && isPlain c && c != '@' && c != '/') isPlain cs with
  | some (lexeme, '\x7b' :: rest) => some (lexeme, '\x7b' :: rest)
  | _ => none

/-- A value starts with a piece that is no blank and has all pieces that follow. -/
def splitValue? (cs : List Char) : Option (List Char × List Char) :=
  match cs with
  | [] => none
  | c :: _ =>
    if isBlank c then none
    else (piece? cs).map fun (lexeme, rest) => (lexeme ++ (pieces rest).1, (pieces rest).2)

/-- A property name may have up to two hyphens before its first letter. -/
def splitProperty? (cs : List Char) : Option (List Char × List Char) :=
  match cs with
  | '-' :: '-' :: rest =>
    (headed? isNameStart isNamePart rest).map fun (lexeme, after) => ('-' :: '-' :: lexeme, after)
  | '-' :: rest =>
    (headed? isNameStart isNamePart rest).map fun (lexeme, after) => ('-' :: lexeme, after)
  | _ => headed? isNameStart isNamePart cs

/-- The name of an at-rule starts with an at sign and a letter. -/
def splitKeyword? : List Char → Option (List Char × List Char)
  | '@' :: rest =>
    (headed? Char.isAlpha isKeywordPart rest).map fun (lexeme, after) => ('@' :: lexeme, after)
  | _ => none

/-- The rest of a comment with the mark that closes it. -/
def commentRest? : List Char → Option (List Char × List Char)
  | '*' :: '/' :: cs => some (['*', '/'], cs)
  | [] => none
  | c :: cs => (commentRest? cs).map fun (lexeme, rest) => (c :: lexeme, rest)

/-- A comment ends at the first mark that closes it. -/
def splitComment? : List Char → Option (List Char × List Char)
  | '/' :: '*' :: cs => (commentRest? cs).map fun (lexeme, rest) => ('/' :: '*' :: lexeme, rest)
  | _ => none

/-- Splits a token of the kind off the front of a text. -/
def split? : Terminal → List Char → Option (List Char × List Char)
  | selector => splitSelector?
  | value => splitValue?
  | property => splitProperty?
  | atKeyword => splitKeyword?
  | comment => splitComment?
  | atParams => splitParams?
  | blank => run? isGap
  | colon => mark? ':'
  | openBrace => mark? '\x7b'
  | closeBrace => mark? '\x7d'
  | semicolon => mark? ';'

/-! ## Nothing is lost -/

theorem headed?_append (head tail : Char → Bool) (cs lexeme rest : List Char)
    (h : headed? head tail cs = some (lexeme, rest)) : lexeme ++ rest = cs ∧ lexeme ≠ [] := by
  unfold headed? at h
  split at h
  · simp at h
  · split at h
    · simp only [Option.some.injEq, Prod.mk.injEq] at h
      obtain ⟨rfl, rfl⟩ := h
      simp
    · simp at h

theorem run?_append (p : Char → Bool) (cs lexeme rest : List Char)
    (h : run? p cs = some (lexeme, rest)) : lexeme ++ rest = cs ∧ lexeme ≠ [] := by
  simp only [run?] at h
  split at h
  · simp at h
  · next hne =>
    simp only [Option.some.injEq, Prod.mk.injEq] at h
    obtain ⟨rfl, rfl⟩ := h
    exact ⟨List.takeWhile_append_dropWhile, by simpa using hne⟩

theorem mark?_append (mark : Char) (cs lexeme rest : List Char)
    (h : mark? mark cs = some (lexeme, rest)) : lexeme ++ rest = cs ∧ lexeme ≠ [] := by
  unfold mark? at h
  split at h
  · simp at h
  · split at h
    · simp only [Option.some.injEq, Prod.mk.injEq] at h
      obtain ⟨rfl, rfl⟩ := h
      simp
    · simp at h

theorem splitSelector?_append (cs lexeme rest : List Char)
    (h : splitSelector? cs = some (lexeme, rest)) : lexeme ++ rest = cs ∧ lexeme ≠ [] := by
  unfold splitSelector? at h
  split at h
  · next hs =>
    simp only [Option.some.injEq, Prod.mk.injEq] at h
    obtain ⟨rfl, rfl⟩ := h
    exact headed?_append _ _ _ _ _ hs
  · simp at h

theorem splitValue?_append (cs lexeme rest : List Char)
    (h : splitValue? cs = some (lexeme, rest)) : lexeme ++ rest = cs ∧ lexeme ≠ [] := by
  unfold splitValue? at h
  split at h
  · simp at h
  · split at h
    · simp at h
    · simp only [Option.map_eq_some_iff, Prod.exists, Prod.mk.injEq] at h
      obtain ⟨l, r, hl, rfl, rfl⟩ := h
      obtain ⟨happ, hne⟩ := piece?_append _ _ _ hl
      exact ⟨by rw [List.append_assoc, pieces_append, happ], by simp [hne]⟩

theorem splitProperty?_append (cs lexeme rest : List Char)
    (h : splitProperty? cs = some (lexeme, rest)) : lexeme ++ rest = cs ∧ lexeme ≠ [] := by
  unfold splitProperty? at h
  split at h
  · simp only [Option.map_eq_some_iff, Prod.exists, Prod.mk.injEq] at h
    obtain ⟨l, r, hl, rfl, rfl⟩ := h
    simp [(headed?_append _ _ _ _ _ hl).1]
  · simp only [Option.map_eq_some_iff, Prod.exists, Prod.mk.injEq] at h
    obtain ⟨l, r, hl, rfl, rfl⟩ := h
    simp [(headed?_append _ _ _ _ _ hl).1]
  · exact headed?_append _ _ _ _ _ h

theorem splitKeyword?_append (cs lexeme rest : List Char)
    (h : splitKeyword? cs = some (lexeme, rest)) : lexeme ++ rest = cs ∧ lexeme ≠ [] := by
  unfold splitKeyword? at h
  split at h
  · simp only [Option.map_eq_some_iff, Prod.exists, Prod.mk.injEq] at h
    obtain ⟨l, r, hl, rfl, rfl⟩ := h
    simp [(headed?_append _ _ _ _ _ hl).1]
  · simp at h

theorem commentRest?_append (cs lexeme rest : List Char)
    (h : commentRest? cs = some (lexeme, rest)) : lexeme ++ rest = cs := by
  fun_induction commentRest? cs generalizing lexeme rest with
  | case1 cs =>
    simp only [Option.some.injEq, Prod.mk.injEq] at h
    obtain ⟨rfl, rfl⟩ := h
    rfl
  | case2 => simp at h
  | case3 c cs _ ih =>
    simp only [Option.map_eq_some_iff, Prod.exists, Prod.mk.injEq] at h
    obtain ⟨l, r, hl, rfl, rfl⟩ := h
    simp [ih l r hl]

theorem splitComment?_append (cs lexeme rest : List Char)
    (h : splitComment? cs = some (lexeme, rest)) : lexeme ++ rest = cs ∧ lexeme ≠ [] := by
  unfold splitComment? at h
  split at h
  · simp only [Option.map_eq_some_iff, Prod.exists, Prod.mk.injEq] at h
    obtain ⟨l, r, hl, rfl, rfl⟩ := h
    simp [commentRest?_append _ _ _ hl]
  · simp at h

/-- What is split off and what is left make up the text, and something is split off. -/
theorem split?_append (t : Terminal) (cs lexeme rest : List Char)
    (h : t.split? cs = some (lexeme, rest)) : lexeme ++ rest = cs ∧ lexeme ≠ [] := by
  cases t with
  | selector => exact splitSelector?_append _ _ _ h
  | value => exact splitValue?_append _ _ _ h
  | property => exact splitProperty?_append _ _ _ h
  | atKeyword => exact splitKeyword?_append _ _ _ h
  | comment => exact splitComment?_append _ _ _ h
  | atParams => exact headed?_append _ _ _ _ _ h
  | blank => exact run?_append _ _ _ _ h
  | colon => exact mark?_append _ _ _ _ h
  | openBrace => exact mark?_append _ _ _ _ h
  | closeBrace => exact mark?_append _ _ _ _ h
  | semicolon => exact mark?_append _ _ _ _ h

theorem split?_length_lt (t : Terminal) (cs lexeme rest : List Char)
    (h : t.split? cs = some (lexeme, rest)) : rest.length < cs.length := by
  obtain ⟨happ, hne⟩ := split?_append t cs lexeme rest h
  have := List.length_pos_iff.2 hne
  rw [← happ, List.length_append]
  omega

end Terminal

end FluidCss
