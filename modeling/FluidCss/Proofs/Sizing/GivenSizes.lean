import FluidCss.Proofs.Number.Tokens
import FluidCss.Proofs.Sizing.Precedence

set_option autoImplicit false

/-! # Sizes that a declaration gives

The two sizes behind the word `fluid` are the first two numbers of the value. All numbers of a value
are found, each once, and where they stand between blanks they are found as they are written; so a
rule in which nothing else sets the sizes has the two that are written first
(`Forest.resolve_spaced`). -/

namespace FluidCss

open Number Text

/-- The word `fluid` with numbers behind it. -/
def fluidValue (sizes : List Spaced) : String :=
  String.ofList ("fluid".toList ++ sizes.flatMap Spaced.text)

theorem toList_fluidValue (sizes : List Spaced) :
    (fluidValue sizes).toList = "fluid".toList ++ sizes.flatMap Spaced.text :=
  String.toList_ofList

theorem numericTokens_fluidValue (sizes : List Spaced) :
    numericTokens (fluidValue sizes).toList = sizes.map fun s => s.quantity.text := by
  rw [toList_fluidValue, Spaced.numericTokens_fluid_append]

theorem contains_fluidValue (sizes : List Spaced) : contains (fluidValue sizes) "fluid" = true := by
  refine (occurs_iff _ _).2 ?_
  rw [toList_fluidValue]
  exact (List.prefix_append _ _).isInfix

/-- The sizes that a value gives are the first two numbers, as they are written. -/
theorem sizesOf?_fluidValue (min max : Spaced) (more : List Spaced) :
    sizesOf? (fluidValue (min :: max :: more)) =
      some (String.ofList min.quantity.text, String.ofList max.quantity.text) := by
  rw [sizesOf?, if_pos (contains_fluidValue _), numericTokens_fluidValue]
  rfl

namespace Declared

variable {κ : Type} {ds : List (Declared κ)} {p : Property}

/-- Where one declaration alone sets the sizes, they are the two that it gives. -/
theorem boundsOf_sizes {value min max : String} (defaults : Bounds)
    (hvalue : values ds p.name = [value]) (hsizes : sizesOf? value = some (min, max))
    (hmin : values ds (p.longhand .minSize) = []) (hmax : values ds (p.longhand .maxSize) = []) :
    (boundsOf p defaults ds).minSize = min ∧ (boundsOf p defaults ds).maxSize = max := by
  have hgiven : lastGiven sizesOf? (values ds p.name) = some (min, max) := by
    rw [hvalue, lastGiven, List.filterMap_cons_some hsizes]
    rfl
  have hget := get_boundsOf p defaults ds
  constructor
  · have h := hget .minSize
    rwa [Property.declared?, hmin, Property.paired?, hgiven] at h
  · have h := hget .maxSize
    rwa [Property.declared?, hmax, Property.paired?, hgiven] at h

end Declared

namespace Forest

/-- **Every number of a text is found once, and a rule gets the sizes as they are written.** The
numbers that are found lie in the text one behind the other, each digit is part of one of them, and
each is read as a number. Behind the word `fluid`, numbers with blanks between them are found as
they are written; and the first two of them are the sizes if no other declaration gives a size. -/
theorem resolve_spaced :
    (∀ text : String, ∃ ss : List Occurrence, AreFoundOnce text.toList ss ∧
      ss.map Occurrence.chars = numericTokens text.toList ∧
      ∀ s ∈ ss, magnitude (String.ofList s.chars) ≠ .nan) ∧
    ∀ sizes : List Spaced,
      numericTokens (fluidValue sizes).toList = sizes.map (fun s => s.quantity.text) ∧
      ∀ (f : Forest) (rule : NodeId) (p : Property) (defaults : Property → Bounds)
        (min max : Spaced) (more : List Spaced), sizes = min :: max :: more →
        Declared.values (f.declared rule) p.name = [fluidValue sizes] →
        Declared.values (f.declared rule) (p.longhand .minSize) = [] →
        Declared.values (f.declared rule) (p.longhand .maxSize) = [] →
        ∃ r, f.resolve rule p.name defaults = .ok r ∧
          r.bounds.minSize = String.ofList min.quantity.text ∧
          r.bounds.maxSize = String.ofList max.quantity.text := by
  refine ⟨fun text => ?_, fun sizes => ⟨numericTokens_fluidValue sizes, ?_⟩⟩
  · obtain ⟨ss, hscan, htokens⟩ := exists_isScan 0 text.toList
    refine ⟨ss, hscan.areFoundOnce, htokens, fun s hs => ?_⟩
    have hmem : s.chars ∈ numericTokens text.toList := htokens ▸ List.mem_map_of_mem hs
    rw [magnitude, String.toList_ofList]
    exact leadingNumber_ne_nan_of_mem hmem
  · rintro f rule p defaults min max more rfl hvalue hmin hmax
    refine ⟨_, by rw [resolve, Property.ofName?_name], ?_⟩
    exact Declared.boundsOf_sizes (defaults p) hvalue (sizesOf?_fluidValue min max more) hmin hmax

/-- A size with a sign behind one blank, and one without a digit before its point behind two. -/
def signedSizes : List Spaced :=
  have hmin : Literal.read? "-1.5".toList = some (⟨some .minus, ['1'], some ['5'], none⟩, []) := by
    decide
  have hmax : Literal.read? ".5".toList = some (⟨none, [], some ['5'], none⟩, []) := by
    decide
  [⟨[' '], ⟨⟨some .minus, ['1'], some ['5'], none⟩, ['e', 'm'], Literal.isWellFormed_of_read? hmin,
      by decide, by decide, rfl, by decide⟩, by decide, by decide⟩,
    ⟨['\t', ' '], ⟨⟨none, [], some ['5'], none⟩, ['r', 'e', 'm'],
      Literal.isWellFormed_of_read? hmax, by decide, by decide, rfl, by decide⟩, by decide,
      by decide⟩]

/-- A rule with these sizes, and with a range beside them. -/
def signedSheet : Sheet :=
  ⟨[.rule ".a" none [.declaration "letter-spacing" "fluid -1.5em\t .5rem" none,
    .declaration "letter-spacing-range" "400px 900px" none]], none, none⟩

/-- The sizes of the rule are the ones that are written. -/
theorem resolve_spaced_signedSheet :
    ∃ r, (signedSheet.store .empty).2.resolve 2 "letter-spacing" Property.builtin = .ok r ∧
      r.bounds.minSize = "-1.5em" ∧ r.bounds.maxSize = ".5rem" :=
  (resolve_spaced.2 signedSizes).2 (signedSheet.store .empty).2 2 .letterSpacing Property.builtin
    _ _ _ rfl (by decide +kernel) (by decide +kernel) (by decide +kernel)

end Forest

end FluidCss
