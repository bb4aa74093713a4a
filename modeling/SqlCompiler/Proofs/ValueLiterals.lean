import SqlCompiler.Literal
import SqlCompiler.Proofs.Octets
import SqlCompiler.Proofs.StringLiterals
/-!
# Literals of values

A text without a zero character is read back from its literal. Octets are quoted as the text that
has them, so that two of them share a literal only if they are equal. The marks that stand for all
other octets are no literals.
-/

namespace SqlCompiler

open StringLiteral Text

variable {s : String} {text : List Char} {octets others : List UInt8}

theorem quoteText_of_zero (zero : '\x00' ∈ s.toList) : quoteText s = nullByteMark := by
  rw [quoteText, if_pos (List.contains_iff_mem.mpr zero)]

theorem toList_quoteText (nonzero : '\x00' ∉ s.toList) :
    (quoteText s).toList = '\'' :: (doubled '\'' s.toList ++ ['\'']) := by
  rw [quoteText, if_neg (mt List.contains_iff_mem.mp nonzero), String.toList_ofList]

theorem text?_quoteText (nonzero : '\x00' ∉ s.toList) :
    text? (quoteText s).toList = some s.toList :=
  text?_eq_some_iff.mpr (toList_quoteText nonzero)

/-- Octets that a literal can hold: those of a text without a zero character. -/
structure Quotable (octets : List UInt8) : Prop where
  nonzero : 0 ∉ octets
  valid : octets.toByteArray.IsValidUTF8

theorem zero_mem_utf8 : 0 ∈ utf8 text ↔ '\x00' ∈ text :=
  mem_utf8_iff (c := '\x00') (by decide)

theorem quoteOctets_of_zero (zero : 0 ∈ octets) : quoteOctets octets = nullByteMark := by
  rw [quoteOctets, if_pos (List.contains_iff_mem.mpr zero)]

theorem quoteOctets_of_invalid (nonzero : 0 ∉ octets)
    (invalid : ¬ octets.toByteArray.IsValidUTF8) : quoteOctets octets = invalidUtf8Mark := by
  rw [quoteOctets, if_neg (mt List.contains_iff_mem.mp nonzero),
    decodeUtf8?_eq_none_iff.mpr invalid]

/-- The octets of a text are quoted as that text. -/
theorem quoteOctets_utf8 (s : String) : quoteOctets (utf8 s.toList) = quoteText s := by
  by_cases zero : '\x00' ∈ s.toList
  · rw [quoteOctets_of_zero (zero_mem_utf8.mpr zero), quoteText_of_zero zero]
  · have nonzero := mt zero_mem_utf8.mp zero
    rw [quoteOctets, if_neg (mt List.contains_iff_mem.mp nonzero), decodeUtf8?_utf8]

theorem Quotable.toList_quoteOctets (h : Quotable octets) : ∃ text, utf8 text = octets ∧
    (quoteOctets octets).toList = '\'' :: (doubled '\'' text ++ ['\'']) := by
  obtain ⟨text, rfl⟩ := isValidUTF8_iff.mp h.valid
  have quoted := quoteOctets_utf8 (String.ofList text)
  have nonzero := mt zero_mem_utf8.mpr h.nonzero
  rw [String.toList_ofList] at quoted
  refine ⟨text, rfl, ?_⟩
  rw [quoted, toList_quoteText (by rwa [String.toList_ofList]), String.toList_ofList]

theorem Quotable.ne_mark (h : Quotable octets) {mark : String}
    (noLiteral : text? mark.toList = none) : quoteOctets octets ≠ mark := by
  rintro rfl
  obtain ⟨text, -, quoted⟩ := h.toList_quoteOctets
  rw [text?_eq_some_iff.mpr quoted] at noLiteral
  cases noLiteral

theorem Quotable.quoteOctets_inj (h : Quotable octets) (ho : Quotable others)
    (same : quoteOctets octets = quoteOctets others) : octets = others := by
  obtain ⟨text, rfl, own⟩ := h.toList_quoteOctets
  obtain ⟨other, rfl, its⟩ := ho.toList_quoteOctets
  have read := text?_eq_some_iff.mpr own
  rw [same, text?_eq_some_iff.mpr its] at read
  rw [Option.some.inj read]

theorem intText_eq (n : Int) : intText n = toString n := by
  cases n with
  | ofNat n => rfl
  | negSucc n =>
    rw [intText, if_pos (Int.negSucc_lt_zero n)]
    rfl

theorem zero_not_mem_intText (n : Int) : '\x00' ∉ (intText n).toList := by
  have digits (m : Nat) : '\x00' ∉ (natText m).toList := by
    rw [natText, String.toList_ofList]
    exact not_mem_natDigits rfl m
  rw [intText]
  split
  · simp [digits]
  · exact digits _

/-- Octets with a zero are quoted as one mark, other octets that are no UTF-8 as another. All others
are quoted as a literal in which every quote stands twice and which holds the text that has these
octets; no two of them share a literal, and none has a mark for its literal. In every dialect the
literal of an integer, of a text or of a document that is a text, in any number of typed wrappers,
is read as the text of that value if it has no zero character, as no integer has. -/
theorem quoteOctets_readBack (octets : List UInt8) :
    (0 ∈ octets → quoteOctets octets = nullByteMark) ∧
    (0 ∉ octets → ¬ octets.toByteArray.IsValidUTF8 → quoteOctets octets = invalidUtf8Mark) ∧
    (Quotable octets →
      (∃ body, (quoteOctets octets).toList = '\'' :: (body ++ ['\'']) ∧ StringLiteral.Paired body ∧
        utf8 (undoubled '\'' body) = octets) ∧
      (∀ others, Quotable others → quoteOctets octets = quoteOctets others → octets = others) ∧
      quoteOctets octets ≠ nullByteMark ∧ quoteOctets octets ≠ invalidUtf8Mark) ∧
    ∀ (e : Engine) (value : Binding),
      (∀ n, value.bare = .int n → text? (e.escape value).toList = some (toString n).toList) ∧
      ∀ s, value.bare = .text s ∨ value.bare = .json (.str s) → '\x00' ∉ s.toList →
        text? (e.escape value).toList = some s.toList := by
  refine ⟨quoteOctets_of_zero, quoteOctets_of_invalid, fun h => ?_, fun e value => ⟨?_, ?_⟩⟩
  · obtain ⟨text, same, quoted⟩ := h.toList_quoteOctets
    refine ⟨⟨_, quoted, paired_doubled text, ?_⟩, fun _ ho => h.quoteOctets_inj ho, ?_⟩
    · rw [undoubled_doubled, same]
    · exact ⟨h.ne_mark rfl, h.ne_mark rfl⟩
  · intro n inside
    rw [← e.escape_bare, inside, ← intText_eq]
    exact text?_quoteText (zero_not_mem_intText n)
  · intro s inside nonzero
    have quoted : e.escape value = quoteText s := by
      rw [← e.escape_bare]
      rcases inside with inside | inside <;> rw [inside] <;> rfl
    rw [quoted, text?_quoteText nonzero]

/-- Quotes at both ends and two in a row, in octets and in a value with two wrappers. -/
theorem quotedRemark_readBack :
    Quotable (utf8 "'o''clock é'".toList) ∧
    (∃ body, (quoteOctets (utf8 "'o''clock é'".toList)).toList = '\'' :: (body ++ ['\'']) ∧
      StringLiteral.Paired body ∧ utf8 (undoubled '\'' body) = utf8 "'o''clock é'".toList) ∧
    quoteOctets [0x61, 0x00, 0xFF] = nullByteMark ∧
    quoteOctets [0x61, 0xFF] = invalidUtf8Mark ∧
    text? ((Engine.mk .mysql {}).escape
      (.typed (.typed (.text "'o''clock é'") .text) .json)).toList = some "'o''clock é'".toList ∧
    text? ((Engine.mk .sqlserver {}).escape (.typed (.int (-7)) .bigint)).toList
      = some "-7".toList := by
  have quotable : Quotable (utf8 "'o''clock é'".toList) :=
    ⟨by decide, isValidUTF8_iff.mpr ⟨_, rfl⟩⟩
  have readsBack := quoteOctets_readBack []
  refine ⟨quotable, ((quoteOctets_readBack _).2.2.1 quotable).1,
    (quoteOctets_readBack _).1 (by decide),
    (quoteOctets_readBack _).2.1 (by decide) (decodeUtf8?_eq_none_iff.mp rfl), ?_, ?_⟩
  · exact (readsBack.2.2.2 _ _).2 _ (.inl rfl) (by decide)
  · exact (readsBack.2.2.2 _ (.typed (.int (-7)) .bigint)).1 (-7) rfl

end SqlCompiler
