set_option autoImplicit false

/-! # Similar words

How alike two words are: the longest stretch that they share is taken out of both, then the parts
before it and the parts behind it are compared in the same way. The characters matched in this
manner, counted in both words, are set against all characters of both. -/

namespace FluidCss.Text

/-- How many characters two texts have in common at their fronts. -/
def commonFront : List Char → List Char → Nat
  | a :: as, b :: bs => if a = b then commonFront as bs + 1 else 0
  | _, _ => 0

/-- A stretch that two texts share: where it starts in each, and how long it is. -/
structure Stretch where
  first : Nat
  second : Nat
  length : Nat
deriving DecidableEq, Repr

/-- The longest stretch that two texts share; of several the one that starts first in the first
text, and then in the second. -/
def longestStretch (as bs : List Char) : Stretch :=
  let starts := (List.range as.length).flatMap fun i => (List.range bs.length).map fun j => (i, j)
  starts.foldl (fun best (i, j) =>
    let length := commonFront (as.drop i) (bs.drop j)
    if best.length < length then ⟨i, j, length⟩ else best) ⟨0, 0, 0⟩

/-- How many characters of the first text are matched. Each step takes a shared stretch out, so no
more steps are needed than the text is long. -/
def matchedFrom : Nat → List Char → List Char → Nat
  | 0, _, _ => 0
  | fuel + 1, as, bs =>
    let s := longestStretch as bs
    if s.length = 0 then 0
    else
      matchedFrom fuel (as.take s.first) (bs.take s.second) + s.length +
        matchedFrom fuel (as.drop (s.first + s.length)) (bs.drop (s.second + s.length))

/-- Whether at least six tenths of the characters of two texts are matched. -/
def isSimilar (a b : String) : Bool :=
  let as := a.toList
  let bs := b.toList
  3 * (as.length + bs.length) ≤ 10 * matchedFrom as.length as bs

end FluidCss.Text
