import SqlCompiler.Proofs.InlinedValues
/-!
# Values dealt out to a text

The placeholders of a text take its values from left to right, and a value goes in as it is. A text
can therefore be filled in two parts, each with the values that fall to it, wherever the first part
ends outside a literal and no pair is torn apart.
-/

namespace SqlCompiler.Substitute

/-- How many characters of a text are placeholders. -/
def placeholders (text : List Char) : Nat :=
  (marks false text).count true

/-- Stretches of text with a value before each; a question mark stands where none is left. -/
def interleaved : List String → List (List Char) → List Char
  | _, [] => []
  | [], stretch :: stretches => '?' :: (stretch ++ interleaved [] stretches)
  | value :: values, stretch :: stretches =>
    value.toList ++ (stretch ++ interleaved values stretches)

variable {a b text : List Char}

theorem fill_append {places more : List Bool} {rest : List Char}
    (lengths : places.length = text.length) (values : List String) :
    fill (places ++ more) values (text ++ rest)
      = fill places (values.take (places.count true)) text
        ++ fill more (values.drop (places.count true)) rest := by
  induction places generalizing text values with
  | nil =>
    obtain rfl := List.eq_nil_of_length_eq_zero lengths.symm
    simp [fill]
  | cons mark places ih =>
    cases text with
    | nil => cases lengths
    | cons c text =>
      have behind (values : List String) := ih (Nat.succ.inj lengths) values
      cases mark with
      | false => simp [fill, behind]
      | true => cases values <;> simp [fill, behind]

/-- The second part is read from the side of a literal on which the first one ends. -/
theorem positional_append (inLiteral : Bool) (whole : endsAlone a = true → Joint a b)
    (values : List String) :
    positional inLiteral values (a ++ b)
      = positional inLiteral (values.take ((marks inLiteral a).count true)) a
        ++ positional (leaves inLiteral a) (values.drop ((marks inLiteral a).count true)) b := by
  simp only [positional_eq_fill]
  rw [(append_read inLiteral whole).1, fill_append (length_marks inLiteral a)]

theorem interleaved_nil (stretches : List (List Char)) :
    interleaved [] stretches = stretches.flatMap ('?' :: ·) := by
  induction stretches with
  | nil => rfl
  | cons stretch stretches ih => simp [interleaved, ih]

theorem interleaved_take (values : List String) (stretches : List (List Char)) :
    interleaved (values.take stretches.length) stretches = interleaved values stretches := by
  induction stretches generalizing values with
  | nil => rfl
  | cons stretch stretches ih => cases values <;> simp [interleaved, ih]

/-- Only the text decides where values go. -/
theorem exists_stretches (text : List Char) : ∃ first stretches,
    text = first ++ stretches.flatMap ('?' :: ·) ∧ stretches.length = placeholders text ∧
      ∀ values, positional false values text = first ++ interleaved values stretches := by
  simp only [positional_eq_fill, placeholders]
  have marked := marks_marked false text
  generalize marks false text = places at marked ⊢
  induction marked with
  | nil => exact ⟨[], [], rfl, rfl, fun _ => rfl⟩
  | @cons mark c places text own _ ih =>
    obtain ⟨first, stretches, rfl, count, filled⟩ := ih
    cases mark with
    | false =>
      refine ⟨c :: first, stretches, rfl, by simpa using count, fun values => ?_⟩
      simp [fill, filled]
    | true =>
      obtain rfl := own rfl
      refine ⟨[], first :: stretches, rfl, by simpa using count, fun values => ?_⟩
      cases values <;> simp [fill, filled, interleaved]

/-- A text is filled in two parts, with the values dealt to both in their order. Without values it
stays as it is, and values beyond its placeholders are left out. A value is copied, whatever it
holds: the text consists of stretches that do not depend on the values, with one value or one
question mark between two of them. -/
theorem positional_parted (outside : leaves false a = false)
    (whole : endsAlone a = true → Joint a b) (values : List String) :
    positional false values (a ++ b)
        = positional false (values.take (placeholders a)) a
          ++ positional false (values.drop (placeholders a)) b ∧
      (∀ text, positional false [] text = text) ∧
      (∀ text, positional false values text
        = positional false (values.take (placeholders text)) text) ∧
      ∀ text, ∃ first stretches, text = first ++ stretches.flatMap ('?' :: ·) ∧
        stretches.length = placeholders text ∧
          ∀ others, positional false others text = first ++ interleaved others stretches := by
  refine ⟨?_, fun text => ?_, fun text => ?_, exists_stretches⟩
  · rw [positional_append false whole, outside, placeholders]
  · obtain ⟨first, stretches, own, -, filled⟩ := exists_stretches text
    rw [filled, interleaved_nil, ← own]
  · obtain ⟨first, stretches, -, count, filled⟩ := exists_stretches text
    rw [filled, filled, ← count, interleaved_take]

/-- Two quotes that end a part belong together, so the one that begins the next part opens a
literal. The first value holds a question mark and quotes, and there is one value too few. -/
theorem quotedRemark_parted :
    leaves false "tags ?? ? and note <> ''".toList = false ∧
      (endsAlone "tags ?? ? and note <> ''".toList = true →
        Joint "tags ?? ? and note <> ''".toList "'?' or a = ? or b = ?".toList) ∧
      ¬ Joint "tags ?? ? and note <> ''".toList "'?' or a = ? or b = ?".toList ∧
      positional false ["'it''s ?'", "'7'"]
          ("tags ?? ? and note <> ''".toList ++ "'?' or a = ? or b = ?".toList)
        = "tags ?? 'it''s ?' and note <> '''?' or a = '7' or b = ?".toList := by
  have outside : leaves false "tags ?? ? and note <> ''".toList = false := by decide
  have whole : endsAlone "tags ?? ? and note <> ''".toList = true →
      Joint "tags ?? ? and note <> ''".toList "'?' or a = ? or b = ?".toList := by
    intro last
    exact absurd last (by decide)
  have torn : ¬ Joint "tags ?? ? and note <> ''".toList "'?' or a = ? or b = ?".toList :=
    fun joint => absurd (joint '\'' rfl '\'' rfl) (by decide)
  refine ⟨outside, whole, torn, ?_⟩
  rw [(positional_parted outside whole ["'it''s ?'", "'7'"]).1]
  decide

end SqlCompiler.Substitute
