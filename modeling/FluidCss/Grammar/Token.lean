import FluidCss.Grammar.Terminal
import FluidCss.Sheet.Position

set_option autoImplicit false

/-! # Tokens

Cutting the next token off a text. Which kinds are tried depends on what may stand at that place,
but the order in which they are tried does not; the first kind that matches is taken. -/

namespace FluidCss

/-- A token: its kind, its text, and the place where it starts. -/
structure Token where
  terminal : Terminal
  lexeme : List Char
  position : Position
deriving DecidableEq, Repr

namespace Terminal

/-- The first of the given kinds of which a token stands at the front of the text, with that token
and the rest of the text. -/
def first? : List Terminal → List Char → Option (Terminal × List Char × List Char)
  | [], _ => none
  | t :: ts, cs =>
    match t.split? cs with
    | some (lexeme, rest) => some (t, lexeme, rest)
    | none => first? ts cs

theorem first?_split? (ts : List Terminal) (cs : List Char) (t : Terminal)
    (lexeme rest : List Char) (h : first? ts cs = some (t, lexeme, rest)) :
    t ∈ ts ∧ t.split? cs = some (lexeme, rest) := by
  induction ts with
  | nil => simp [first?] at h
  | cons u us ih =>
    rw [first?] at h
    split at h
    · next hu =>
      simp only [Option.some.injEq, Prod.mk.injEq] at h
      obtain ⟨rfl, rfl, rfl⟩ := h
      exact ⟨by simp, hu⟩
    · obtain ⟨hmem, hsplit⟩ := ih h
      exact ⟨by simp [hmem], hsplit⟩

/-- No kind matches exactly when none of them does. -/
theorem first?_eq_none_iff (ts : List Terminal) (cs : List Char) :
    first? ts cs = none ↔ ∀ t ∈ ts, t.split? cs = none := by
  induction ts with
  | nil => simp [first?]
  | cons u us ih =>
    rw [first?]
    split <;> simp_all

theorem first?_length_lt (ts : List Terminal) (cs : List Char) (t : Terminal)
    (lexeme rest : List Char) (h : first? ts cs = some (t, lexeme, rest)) :
    rest.length < cs.length :=
  split?_length_lt t cs lexeme rest (first?_split? ts cs t lexeme rest h).2

/-- The kinds that are tried where those of `ts` may stand, in order. White space and comments are
tried everywhere. -/
def triedWith (ts : List Terminal) : List Terminal :=
  all.filter fun t => t.isSkipped || ts.contains t

end Terminal

end FluidCss
