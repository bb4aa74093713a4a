import SqlCompiler.Proofs.PathLiterals
import SqlCompiler.Proofs.SelectorAgreement
import SqlCompiler.Proofs.StringLiterals
/-!
# Path literals that keep their path inside

The literal of a path for reading closes at its end whatever the path is, with and without
backslash escapes: quotes are written twice and no backslash is left before them. The literal of a
list of steps doubles quotes too but copies backslashes, so it is contained just when no key has a
backslash before a quote.
-/

namespace SqlCompiler.JsonPath

open StringLiteral

theorem head_of_not_beforeQuote {text : List Char} (plain : ¬ beforeQuote text = true) :
    text.head? ≠ some '\'' := by
  intro head
  obtain ⟨rest, rfl⟩ := List.head?_eq_some_iff.mp head
  exact plain rfl

theorem guarded_escapeQuotes (path : List Char) : Guarded (escapeQuotes 0 path) := by
  induction path with
  | nil => exact ⟨.nil, unslashed_nil⟩
  | cons c path ih =>
    by_cases backslash : c = '\\'
    · subst backslash
      rw [escapeQuotes_backslash]
      split
      · exact ih
      · next plain =>
        refine ⟨.other (by decide) ih.paired, unslashed_cons.mpr ⟨fun _ => ?_, ih.unslashed⟩⟩
        rw [head_escapeQuotes, if_neg plain]
        exact head_of_not_beforeQuote plain
    · by_cases quote : c = '\''
      · subst quote
        have outer : Unslashed ('\'' :: '\'' :: escapeQuotes 0 path) := by
          rw [unslashed_plain (by decide), unslashed_plain (by decide)]
          exact ih.unslashed
        exact ⟨ih.paired.pair, outer⟩
      · rw [escapeQuotes_plain backslash quote]
        exact ⟨.other quote ih.paired, (unslashed_plain backslash).mpr ih.unslashed⟩

theorem sealed_quotedSegment (segment : List Char) :
    Sealed (quotedSegment (escapeQuotes 0 segment)) := by
  have quoted (key : List Char) : Sealed ('"' :: (escapeQuotes 0 key ++ ['"'])) :=
    (guarded_escapeQuotes key).between rfl rfl
  have groups (tokens : List (List Char)) : Sealed (bracketed (tokens.map (escapeQuotes 0))) := by
    rw [bracketed, List.flatMap_map]
    exact sealed_flatMap fun token _ => (guarded_escapeQuotes token).between rfl rfl
  unfold quotedSegment
  rw [splitGroups_escapeQuotes]
  generalize splitGroups segment = read
  obtain ⟨key, tokens⟩ := read
  cases tokens with
  | nil => exact quoted segment
  | cons token tokens =>
    by_cases bare : key = []
    · subst bare
      exact groups (token :: tokens)
    · have both := (quoted key).append (groups (token :: tokens))
      cases escaped : escapeQuotes 0 key with
      | nil => exact absurd (escapeQuotes_eq_nil.mp escaped) bare
      | cons c rest => simpa [escaped] using both

theorem sealed_points {segments : List (List Char)} (h : ∀ segment ∈ segments, Sealed segment) :
    Sealed (['.'].intercalate segments) := by
  cases segments with
  | nil => exact sealed_nil
  | cons first rest =>
    obtain ⟨own, others⟩ := List.forall_mem_cons.mp h
    rw [intercalate_point]
    have point : Sealed ['.'] := sealed_clean (by decide)
    exact own.append (sealed_flatMap fun segment member => point.append (others segment member))

/-- The literal of a path keeps the path inside, whatever its text is. -/
theorem readLiteral_contained (path : List Char) :
    Contained (readLiteral path) ∧ ∀ lexing, ClosesAtEnd lexing (readLiteral path) := by
  have segments : Sealed (['.'].intercalate
      ((Text.splitArrows (escapeQuotes 0 path)).map quotedSegment)) := by
    rw [splitArrows_escapeQuotes, List.map_map]
    apply sealed_points
    intro text member
    obtain ⟨segment, -, rfl⟩ := List.mem_map.mp member
    exact sealed_quotedSegment segment
  have root : Sealed ['$'] := sealed_clean (by decide)
  have point (p : Prop) [Decidable p] : Sealed (if p then [] else ['.']) := by
    split
    · exact sealed_nil
    · exact sealed_clean (by decide)
  have contained : Contained (readLiteral path) :=
    (root.append ((point _).append segments)).contained
  exact ⟨contained, contained.closesAtEnd⟩

example : readLiteral "it\\\\'s".toList = "'$.\"it''s\"'".toList := by decide +kernel

/-- Whether a backslash, read as an escape, takes a quote of the text along. -/
def takesQuote : List Char → Bool
  | [] => false
  | '\\' :: '\'' :: _ => true
  | '\\' :: _ :: rest => takesQuote rest
  | _ :: rest => takesQuote rest

theorem stepText_keyed (k : String) :
    stepText (.key k) = '.' :: '"' :: (Text.doubled '\'' k.toList ++ ['"']) := by
  simpa using stepText_key k.toList

theorem stepText_key_append (k : String) (rest : List Char) : stepText (.key k) ++ rest
    = '.' :: '"' :: (Text.doubled '\'' k.toList ++ '"' :: rest) := by
  simp [stepText_keyed]

theorem clean_stepText_index (i : Nat) : Substitute.Clean (stepText (.index i)) := by
  have clean : (PathStep.index i).Clean := trivial
  exact clean_stepText clean

theorem paired_stepText (step : PathStep) : Paired (stepText step) := by
  cases step with
  | index i => exact (sealed_clean (clean_stepText_index i)).paired
  | key k =>
    have opening : Sealed ['.', '"'] := sealed_clean (by decide)
    have closing : Sealed ['"'] := sealed_clean (by decide)
    rw [stepText_keyed]
    exact opening.paired.append ((paired_doubled k.toList).append closing.paired)

theorem paired_stepsText (steps : List PathStep) : Paired (stepsText steps) := by
  refine .other (by decide) ?_
  induction steps with
  | nil => exact .nil
  | cons step steps ih => exact (paired_stepText step).append ih

/-- The quotes of a list of steps stand behind backslashes where those of its keys do. -/
theorem unslashed_steps (steps : List PathStep) (rest : List Char) :
    Unslashed (steps.flatMap stepText ++ rest) ↔
      (∀ k, .key k ∈ steps → Unslashed k.toList) ∧ Unslashed rest := by
  induction steps with
  | nil => simp
  | cons step steps ih =>
    rw [List.flatMap_cons, List.append_assoc]
    cases step with
    | index i =>
      rw [unslashed_clean_append (clean_stepText_index i), ih]
      simp
    | key k =>
      rw [stepText_key_append, unslashed_plain (by decide), unslashed_plain (by decide),
        unslashed_append (by decide) (by decide), unslashed_doubled, ih]
      simp [forall_and, and_assoc, or_imp]

/-! ### Writing with backslash escapes -/

/-- A quote that has lost its pair closes the literal before the key does. -/
theorem after?_lone {lexing : Lexing} (key rest : List Char) : ∃ behind,
    after? lexing ('\'' :: (Text.doubled '\'' key ++ '"' :: rest))
      = some (behind ++ '"' :: rest) := by
  induction key with
  | nil => exact ⟨[], rfl⟩
  | cons c key ih =>
    by_cases quote : c = '\''
    · subst quote
      exact ih
    · refine ⟨c :: Text.doubled '\'' key, ?_⟩
      rw [Text.doubled_cons_of_ne quote]
      exact after?_quote (by simpa using quote)

/-- A key is left behind its own closing mark, unless a quote that it takes along leaves the rest
of the key behind the literal. -/
theorem after?_key (key rest : List Char) : ∃ behind,
    after? .backslash (Text.doubled '\'' key ++ '"' :: rest) =
      if takesQuote key then some (behind ++ '"' :: rest) else after? .backslash rest := by
  fun_induction takesQuote key with
  | case1 => exact ⟨[], after?_plain (by decide) (by decide)⟩
  | case2 key => exact after?_lone key rest
  | case3 c key quote ih =>
    rw [Text.doubled_cons_of_ne (by decide), Text.doubled_cons_of_ne quote]
    exact ih
  | case4 c key _ alone ih =>
    by_cases quote : c = '\''
    · subst quote
      exact ih
    · by_cases backslash : c = '\\'
      · -- A backslash at the end of the key takes the mark behind the key along.
        cases key with
        | nil =>
          subst backslash
          exact ⟨[], rfl⟩
        | cons d key => exact absurd rfl (alone d key backslash)
      · rw [Text.doubled_cons_of_ne quote, List.cons_append, after?_plain quote backslash]
        exact ih

theorem after?_steps (steps : List PathStep) :
    after? .backslash (steps.flatMap stepText ++ ['\'']) = some [] ↔
      ∀ k, .key k ∈ steps → takesQuote k.toList = false := by
  induction steps with
  | nil => simp [after?]
  | cons step steps ih =>
    rw [List.flatMap_cons, List.append_assoc]
    cases step with
    | index i =>
      rw [after?_clean (clean_stepText_index i), ih]
      simp
    | key k =>
      obtain ⟨behind, read⟩ := after?_key k.toList (steps.flatMap stepText ++ ['\''])
      rw [stepText_key_append, after?_plain (by decide) (by decide),
        after?_plain (by decide) (by decide), read]
      cases takes : takesQuote k.toList with
      | true =>
        rw [if_pos rfl]
        constructor
        · intro closes
          simp at closes
        · intro keeps
          have own := keeps k List.mem_cons_self
          rw [takes] at own
          cases own
      | false =>
        rw [if_neg Bool.false_ne_true, ih]
        simp [takes, forall_and, or_imp]

/-- The literal of a list of steps keeps its path inside just when no key has a backslash directly
before a quote. Without escapes it closes at its end in any case; where a backslash is an escape it
does just when none takes a quote along. -/
theorem writeLiteral_contained_iff (steps : List PathStep) :
    (Contained (writeLiteral steps).toList ↔ ∀ k, .key k ∈ steps → Unslashed k.toList) ∧
      ClosesAtEnd .standard (writeLiteral steps).toList ∧
      (ClosesAtEnd .backslash (writeLiteral steps).toList ↔
        ∀ k, .key k ∈ steps → takesQuote k.toList = false) := by
  have whole : (writeLiteral steps).toList = '\'' :: (stepsText steps ++ ['\'']) :=
    String.toList_ofList
  have paired := paired_stepsText steps
  have keys := unslashed_steps steps ['\'']
  rw [and_iff_left ((unslashed_plain (by decide)).mpr unslashed_nil)] at keys
  refine ⟨?_, ⟨_, whole, paired.after?_standard (by simp)⟩, ?_⟩
  · rw [← keys, whole]
    constructor
    · rintro ⟨body, same, -, unslashed⟩
      rw [← (List.cons.inj same).2] at unslashed
      exact (unslashed_plain (by decide)).mp unslashed
    · intro unslashed
      exact ⟨_, rfl, paired.evenRuns, (unslashed_plain (by decide)).mpr unslashed⟩
  · rw [← after?_steps, whole]
    have root : after? .backslash (stepsText steps ++ ['\''])
        = after? .backslash (steps.flatMap stepText ++ ['\'']) :=
      after?_plain (by decide) (by decide)
    constructor
    · rintro ⟨inner, same, closes⟩
      rwa [← (List.cons.inj same).2, root] at closes
    · intro closes
      exact ⟨_, rfl, root.trans closes⟩

/-- The quote of a key closes the literal where a backslash is an escape, and the rest of the key
stands behind it; for reading the same path stays inside. -/
theorem slashedKey_leaves :
    JsonPath.steps "a\\'b".toList = .ok [.key "a\\'b"] ∧
      writeLiteral [.key "a\\'b"] = "'$.\"a\\''b\"'" ∧
      ¬ Contained (writeLiteral [.key "a\\'b"]).toList ∧
      ¬ ClosesAtEnd .backslash (writeLiteral [.key "a\\'b"]).toList ∧
      after? .backslash "$.\"a\\''b\"'".toList = some "b\"'".toList ∧
      readLiteral "a\\'b".toList = "'$.\"a''b\"'".toList := by
  have text : writeLiteral [.key "a\\'b"] = "'$.\"a\\''b\"'" := by decide +kernel
  have escapes : ¬ ClosesAtEnd .backslash (writeLiteral [.key "a\\'b"]).toList := by
    rintro ⟨inner, same, closes⟩
    rw [text] at same
    have inside : inner = "$.\"a\\''b\"'".toList := (List.cons.inj same).2.symm
    rw [inside] at closes
    exact absurd closes (by decide +kernel)
  refine ⟨rfl, text, fun contained => escapes (contained.closesAtEnd .backslash), escapes, ?_, ?_⟩
  · decide +kernel
  · decide +kernel

end SqlCompiler.JsonPath
