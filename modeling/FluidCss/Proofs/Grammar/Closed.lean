import FluidCss.Proofs.Grammar.Lexeme

set_option autoImplicit false

/-! # Values put together from parts

A value is closed if it has no `url(` that would take what follows it. In front of a semicolon with a
closing parenthesis behind it, this is seen: `IsValueText` asks no more than that
(`isValueText_iff`). A value that is put together from closed parts and from characters that start
nothing is closed, if nothing goes on with a `url(` where two parts meet. -/

namespace FluidCss

open Text

/-- A text with no blank at either end is trimmed. -/
theorem isTrimmed_of_ends {c d : Char} (hc : isBlank c = false) (hd : isBlank d = false)
    (cs : List Char) : isTrimmed (c :: (cs ++ [d])) = true := by
  rw [isTrimmed, trim_cons hc, trimEnd_append_singleton cs d hd, beq_self_eq_true]

namespace Terminal

variable {c d : Char} {l m rest : List Char}

/-- Whether a character is a piece of its own whatever follows it. -/
def isOrdinary (c : Char) : Bool :=
  !isDelimiter c && c != '\x22' && c != '\x27' && c != 'u' && c != 'U'

theorem piece?_of_isOrdinary (hc : isOrdinary c = true) (cs : List Char) :
    piece? (c :: cs) = some ([c], cs) := by
  simp only [isOrdinary, Bool.and_eq_true, Bool.not_eq_true', bne_iff_ne] at hc
  obtain ⟨⟨⟨⟨hdelimiter, hquote⟩, hquote'⟩, hu⟩, hU⟩ := hc
  have hurl : url? (c :: cs) = none := by
    refine url?_eq_none_iff.2 fun u r l cs' heq hletters => ?_
    obtain ⟨rfl, -⟩ := List.cons.inj heq
    exact absurd hletters.1 (not_or.2 ⟨hu, hU⟩)
  simp [piece?, hquote, hquote', hurl, hdelimiter]

namespace Pieced

theorem ordinary_append (hl : l.all isOrdinary = true) (hm : Pieced rest m) :
    Pieced rest (l ++ m) := by
  induction l with
  | nil => exact hm
  | cons c l ih =>
    rw [List.all_cons, Bool.and_eq_true] at hl
    exact (ih hl.2).cons (x := [c]) (piece?_of_isOrdinary hl.1 _)

theorem of_cons (hc : isOrdinary c = true) (h : Pieced rest (c :: l)) : Pieced rest l := by
  generalize hcs : c :: l = cs at h
  cases h with
  | nil => exact absurd hcs (by simp)
  | @cons x m hx hm =>
    have hpiece := piece?_of_isOrdinary hc (l ++ rest)
    rw [← List.cons_append, hcs, List.append_assoc, hx] at hpiece
    obtain ⟨rfl, -⟩ : x = [c] ∧ _ := by simpa using hpiece
    obtain rfl : l = m := (List.cons.inj hcs).2
    exact hm

/-- **A closed part goes over to a larger value.** -/
theorem append (hl : Pieced [';', ')'] l) (hm : Pieced rest (d :: m))
    (hd : continuesUrl d = false) : Pieced rest (l ++ d :: m) := by
  induction hl with
  | nil => exact hm
  | @cons x l hx _ ih =>
    rw [List.append_assoc]
    refine .cons ?_ ih
    rw [List.append_assoc]
    rcases piece?_cases hx with ⟨_, _, _, _, htransfer⟩ | ⟨c, rfl, hquote, hquote', hc, hurl⟩
    · exact htransfer _
    · have hnone : url? (c :: (l ++ d :: (m ++ rest))) = none :=
        url?_eq_none_transfer [] hurl hd fun _ => by simp
      simp [piece?, hquote, hquote', hc, hnone]

end Pieced

end Terminal

/-- A text can be a value exactly if it is closed. -/
theorem isValueText_iff (cs : List Char) :
    IsValueText cs ↔ cs ≠ [] ∧ isTrimmed cs = true ∧ Terminal.Pieced [';', ')'] cs := by
  refine and_congr_right fun hne => and_congr_right fun htrim => ?_
  constructor
  · intro h
    exact (Terminal.splitValue?_eq_some_iff.1 (h [')'])).2
  · intro h rest
    obtain ⟨c, cs, rfl⟩ := List.exists_cons_of_ne_nil hne
    refine Terminal.splitValue?_eq_some_iff.2
      ⟨⟨c, cs, rfl, not_isBlank_of_isTrimmed htrim⟩, ?_⟩
    exact h.transfer (fun _ => by simp) (List.append_nil _).symm (by simp)

/-- Whether a text can be a value is seen from its pieces in front of one other text. -/
instance (cs : List Char) : Decidable (IsValueText cs) :=
  decidable_of_iff (cs ≠ [] ∧ isTrimmed cs = true ∧
      Terminal.pieces (cs ++ [';', ')']) = (cs, [';', ')'])) <| by
    rw [isValueText_iff, Terminal.pieces_eq_iff]

example : IsValueText "url(a;b) ';'".toList := by decide +kernel

example : ¬ IsValueText "a url(b".toList := by decide +kernel

namespace Node

mutual

/-- Whether a node is printed so that it is read back can be decided along the tree. -/
def decidableIsPrintable (inBlock : Bool) : (n : Node) → Decidable (n.IsPrintable inBlock)
  | declaration prop value _ =>
    inferInstanceAs (Decidable (isPropertyText prop.toList = true ∧ IsValueText value.toList ∧
      (inBlock = true → hasNoBlock value.toList = true)))
  | rule selector _ nodes =>
    have := decidableArePrintable false nodes
    inferInstanceAs (Decidable (isSelectorText selector.toList = true ∧
      (∀ n ∈ nodes, n.isDeclaration = true) ∧ ArePrintable false nodes))
  | atStatement name params _ =>
    inferInstanceAs (Decidable (isKeywordText name.toList = true ∧
      isParamsText params.toList = true))
  | atBlock name params _ nodes =>
    have := decidableArePrintable true nodes
    inferInstanceAs (Decidable (isKeywordText name.toList = true ∧
      isParamsText params.toList = true ∧ ArePrintable true nodes))

/-- Whether nodes are printed so that they are read back can be decided one by one. -/
def decidableArePrintable (inBlock : Bool) : (ns : List Node) → Decidable (ArePrintable inBlock ns)
  | [] => inferInstanceAs (Decidable True)
  | n :: ns =>
    have := decidableIsPrintable inBlock n
    have := decidableArePrintable inBlock ns
    inferInstanceAs (Decidable (n.IsPrintable inBlock ∧ ArePrintable inBlock ns))

end

instance (inBlock : Bool) (ns : List Node) : Decidable (ArePrintable inBlock ns) :=
  decidableArePrintable inBlock ns

end Node

end FluidCss
