import SqlCompiler.Engine.Selector
import SqlCompiler.Proofs.CleanNames
/-!
# Selectors that read what they write

The path of a selector is encoded twice: its text is rewritten for reading, and parsed into steps
for writing. The two literals are compared segment by segment, at the first character in which they
differ.
-/

namespace SqlCompiler.JsonPath

/-- Whether the backslashes at the front of a text, if any, stand before a quote. -/
def beforeQuote : List Char → Bool
  | [] => false
  | '\\' :: rest => beforeQuote rest
  | '\'' :: _ => true
  | _ => false

section Quotes

variable {c : Char} {text : List Char}

theorem beforeQuote_plain (backslash : c ≠ '\\') (quote : c ≠ '\'') (text : List Char) :
    beforeQuote (c :: text) = false := by
  unfold beforeQuote
  split <;> simp_all

theorem beforeQuote_append (backslash : c ≠ '\\') (quote : c ≠ '\'') (a b : List Char) :
    beforeQuote (a ++ c :: b) = beforeQuote a := by
  induction a with
  | nil => exact beforeQuote_plain backslash quote b
  | cons d a ih =>
    by_cases slash : d = '\\'
    · subst slash
      exact ih
    · by_cases mark : d = '\''
      · subst mark
        rfl
      · rw [List.cons_append, beforeQuote_plain slash mark, beforeQuote_plain slash mark]

theorem escapeQuotes_pending (pending : Nat) (text : List Char) : escapeQuotes pending text =
    (if beforeQuote text then [] else List.replicate pending '\\') ++ escapeQuotes 0 text := by
  induction text generalizing pending with
  | nil => simp [escapeQuotes, beforeQuote]
  | cons c text ih =>
    by_cases backslash : c = '\\'
    · subst backslash
      rw [escapeQuotes, escapeQuotes, ih, ih (0 + 1), beforeQuote]
      split <;> simp [List.replicate_succ']
    · by_cases quote : c = '\''
      · subst quote
        rfl
      · simp [escapeQuotes, beforeQuote_plain backslash quote]

theorem escapeQuotes_backslash (text : List Char) : escapeQuotes 0 ('\\' :: text) =
    if beforeQuote text then escapeQuotes 0 text else '\\' :: escapeQuotes 0 text := by
  rw [escapeQuotes, escapeQuotes_pending]
  split <;> rfl

theorem escapeQuotes_quote (text : List Char) :
    escapeQuotes 0 ('\'' :: text) = '\'' :: '\'' :: escapeQuotes 0 text :=
  rfl

theorem escapeQuotes_plain (backslash : c ≠ '\\') (quote : c ≠ '\'') (text : List Char) :
    escapeQuotes 0 (c :: text) = c :: escapeQuotes 0 text := by
  rw [escapeQuotes]
  · rfl
  · exact backslash
  · exact quote

theorem escapeQuotes_append (backslash : c ≠ '\\') (quote : c ≠ '\'') (a b : List Char) :
    escapeQuotes 0 (a ++ c :: b) = escapeQuotes 0 a ++ c :: escapeQuotes 0 b := by
  induction a with
  | nil => exact escapeQuotes_plain backslash quote b
  | cons d a ih =>
    by_cases slash : d = '\\'
    · subst slash
      rw [List.cons_append, escapeQuotes_backslash, escapeQuotes_backslash,
        beforeQuote_append backslash quote, ih]
      split <;> rfl
    · by_cases mark : d = '\''
      · subst mark
        rw [List.cons_append, escapeQuotes_quote, escapeQuotes_quote, ih]
        rfl
      · rw [List.cons_append, escapeQuotes_plain slash mark, escapeQuotes_plain slash mark, ih]
        rfl

theorem head_escapeQuotes (text : List Char) : (escapeQuotes 0 text).head? =
    if beforeQuote text then some '\'' else text.head? := by
  induction text with
  | nil => rfl
  | cons c text ih =>
    by_cases backslash : c = '\\'
    · subst backslash
      rw [escapeQuotes_backslash, beforeQuote]
      split
      · next quoted => rw [ih, if_pos quoted]
      · rfl
    · by_cases quote : c = '\''
      · subst quote
        rfl
      · rw [escapeQuotes_plain backslash quote, beforeQuote_plain backslash quote]
        rfl

theorem escapeQuotes_eq_nil : escapeQuotes 0 text = [] ↔ text = [] := by
  constructor
  · intro none
    have head := head_escapeQuotes text
    rw [none] at head
    split at head
    · cases head
    · exact List.head?_eq_none_iff.mp head.symm
  · rintro rfl
    rfl

end Quotes

/-! ### Segments with their quotes escaped -/

section Segments

variable {c : Char}

theorem splitArrows_head (text : List Char) : ∃ first rest,
    Text.splitArrows text = first :: rest ∧ beforeQuote first = beforeQuote text := by
  induction text using Text.splitArrows.induct with
  | case1 => exact ⟨[], [], rfl, rfl⟩
  | case2 rest ih => exact ⟨[], _, rfl, rfl⟩
  | case3 c text other ih =>
    obtain ⟨first, rest, split, same⟩ := ih
    refine ⟨c :: first, rest, ?_, ?_⟩
    · rw [Text.splitArrows.eq_3 c text other, split]
      rfl
    · by_cases backslash : c = '\\'
      · subst backslash
        exact same
      · by_cases quote : c = '\''
        · subst quote
          rfl
        · rw [beforeQuote_plain backslash quote, beforeQuote_plain backslash quote]

/-- No arrow comes or goes where quotes are escaped. -/
theorem splitArrows_escapeQuotes (path : List Char) : Text.splitArrows (escapeQuotes 0 path)
    = (Text.splitArrows path).map (escapeQuotes 0) := by
  induction path using Text.splitArrows.induct with
  | case1 => rfl
  | case2 rest ih =>
    have arrow : escapeQuotes 0 ('-' :: '>' :: rest) = '-' :: '>' :: escapeQuotes 0 rest := by
      rw [escapeQuotes_plain (by decide) (by decide), escapeQuotes_plain (by decide) (by decide)]
    rw [arrow, Text.splitArrows, ih]
    rfl
  | case3 c text other ih =>
    obtain ⟨first, rest, split, same⟩ := splitArrows_head text
    rw [Text.splitArrows.eq_3 c text other, split]
    rw [split] at ih
    by_cases backslash : c = '\\'
    · subst backslash
      rw [escapeQuotes_backslash, ← same]
      split
      · next quoted => simp [Text.consFirst, escapeQuotes_backslash, quoted, ih]
      · next plain => simp [Text.consFirst, escapeQuotes_backslash, plain, ih, Text.splitArrows]
    · by_cases quote : c = '\''
      · subst quote
        simp [Text.consFirst, escapeQuotes_quote, ih, Text.splitArrows]
      · have stays : ∀ tail, c = '-' → escapeQuotes 0 text = '>' :: tail → False := by
          intro tail dash closes
          have head := head_escapeQuotes text
          rw [closes] at head
          split at head
          · cases head
          · obtain ⟨tail, rfl⟩ := List.head?_eq_some_iff.mp head.symm
            exact other tail dash rfl
        rw [escapeQuotes_plain backslash quote, Text.splitArrows.eq_3 c _ stays, ih]
        simp [Text.consFirst, escapeQuotes_plain backslash quote]

/-- The text of a segment, read so far from its end. -/
def SegmentEnd.text : SegmentEnd → List Char
  | groups tokens => bracketed tokens
  | inside token tokens => token ++ ']' :: bracketed tokens
  | key text tokens => text ++ bracketed tokens

def SegmentEnd.map (f : List Char → List Char) : SegmentEnd → SegmentEnd
  | groups tokens => groups (tokens.map f)
  | inside token tokens => inside (f token) (tokens.map f)
  | key text tokens => key (f text) (tokens.map f)

theorem push_text (c : Char) (rear : SegmentEnd) : (rear.push c).text = c :: rear.text := by
  cases rear with
  | groups tokens =>
    rw [SegmentEnd.push]
    split
    · next closes => simp [SegmentEnd.text, closes]
    · rfl
  | inside token tokens =>
    rw [SegmentEnd.push]
    split
    · next opens => simp [SegmentEnd.text, bracketed, opens.1]
    · split <;> simp [SegmentEnd.text]
  | key text tokens => rfl

theorem text_foldr (segment : List Char) :
    (segment.foldr SegmentEnd.push (.groups [])).text = segment := by
  induction segment with
  | nil => rfl
  | cons c segment ih => rw [List.foldr_cons, push_text, ih]

/-- A segment is its key and the groups at its end. -/
theorem splitGroups_text (segment : List Char) :
    (splitGroups segment).1 ++ bracketed (splitGroups segment).2 = segment := by
  have whole := text_foldr segment
  rw [splitGroups]
  cases rear : segment.foldr SegmentEnd.push (.groups []) <;> rw [rear] at whole
  all_goals simpa [SegmentEnd.split, SegmentEnd.text] using whole

theorem beforeQuote_bracketed (text : List Char) (tokens : List (List Char)) :
    beforeQuote (text ++ bracketed tokens) = beforeQuote text := by
  cases tokens with
  | nil => rw [bracketed, List.flatMap_nil, List.append_nil]
  | cons token tokens =>
    rw [bracketed, List.flatMap_cons, List.cons_append]
    exact beforeQuote_append (by decide) (by decide) _ _

theorem push_plain (backslash : c ≠ '\\') (quote : c ≠ '\'') (rear : SegmentEnd) :
    (rear.map (escapeQuotes 0)).push c = (rear.push c).map (escapeQuotes 0) := by
  have own (text : List Char) := escapeQuotes_plain backslash quote text
  cases rear with
  | groups tokens =>
    by_cases closes : c = ']' <;> simp [SegmentEnd.push, SegmentEnd.map, closes, own, escapeQuotes]
  | inside token tokens =>
    have closed : escapeQuotes 0 (token ++ [']']) = escapeQuotes 0 token ++ [']'] :=
      escapeQuotes_append (by decide) (by decide) token []
    by_cases group : c = '[' ∧ token ≠ []
    · simp [SegmentEnd.push, SegmentEnd.map, group, escapeQuotes_eq_nil]
    · by_cases bracket : c = '[' ∨ c = ']'
      · simp [SegmentEnd.push, SegmentEnd.map, group, bracket, escapeQuotes_eq_nil, own, closed]
      · simp [SegmentEnd.push, SegmentEnd.map, group, bracket, escapeQuotes_eq_nil, own]
  | key text tokens => simp [SegmentEnd.push, SegmentEnd.map, own]

theorem push_quote (rear : SegmentEnd) :
    ((rear.map (escapeQuotes 0)).push '\'').push '\'' = (rear.push '\'').map (escapeQuotes 0) := by
  cases rear <;> simp [SegmentEnd.push, SegmentEnd.map, escapeQuotes_quote, escapeQuotes]

theorem push_backslash (rear : SegmentEnd) : (rear.push '\\').map (escapeQuotes 0) =
    if beforeQuote rear.text then rear.map (escapeQuotes 0)
    else (rear.map (escapeQuotes 0)).push '\\' := by
  cases rear with
  | groups tokens =>
    have none := beforeQuote_bracketed [] tokens
    rw [List.nil_append] at none
    simp [SegmentEnd.push, SegmentEnd.map, SegmentEnd.text, none, beforeQuote, escapeQuotes]
  | inside token tokens =>
    rw [SegmentEnd.text, beforeQuote_append (by decide) (by decide)]
    by_cases quoted : beforeQuote token <;>
      simp [SegmentEnd.push, SegmentEnd.map, escapeQuotes_backslash, quoted]
  | key text tokens =>
    rw [SegmentEnd.text, beforeQuote_bracketed]
    by_cases quoted : beforeQuote text <;>
      simp [SegmentEnd.push, SegmentEnd.map, escapeQuotes_backslash, quoted]

theorem foldr_escapeQuotes (segment : List Char) :
    (escapeQuotes 0 segment).foldr SegmentEnd.push (.groups [])
      = (segment.foldr SegmentEnd.push (.groups [])).map (escapeQuotes 0) := by
  induction segment with
  | nil => rfl
  | cons c segment ih =>
    by_cases backslash : c = '\\'
    · subst backslash
      rw [escapeQuotes_backslash, List.foldr_cons, push_backslash, text_foldr]
      split
      · exact ih
      · rw [List.foldr_cons, ih]
    · by_cases quote : c = '\''
      · subst quote
        rw [escapeQuotes_quote, List.foldr_cons, List.foldr_cons, List.foldr_cons, ih, push_quote]
      · rw [escapeQuotes_plain backslash quote, List.foldr_cons, List.foldr_cons, ih,
          push_plain backslash quote]

theorem splitGroups_escapeQuotes (segment : List Char) : splitGroups (escapeQuotes 0 segment)
    = (escapeQuotes 0 (splitGroups segment).1, (splitGroups segment).2.map (escapeQuotes 0)) := by
  rw [splitGroups, foldr_escapeQuotes, splitGroups]
  cases segment.foldr SegmentEnd.push (.groups []) with
  | groups tokens | key text tokens => rfl
  | inside token tokens =>
    have closed := escapeQuotes_append (c := ']') (by decide) (by decide) token []
    simp only [SegmentEnd.map, SegmentEnd.split]
    rw [closed]
    rfl

end Segments

/-! ### Indexes and keys -/

/-- A token as an index is written. -/
def IsNumeral (token : List Char) : Prop :=
  ∃ i, token = natDigits i

theorem allDigits_iff {text : List Char} :
    Text.allDigits text = true ↔ ∀ c ∈ text, c.isDigit = true :=
  List.all_eq_true

theorem not_mem_of_digits {text : List Char} (decimal : Text.allDigits text = true) {c : Char}
    (other : c.isDigit = false) : c ∉ text := by
  intro member
  rw [allDigits_iff.mp decimal c member] at other
  cases other

section Digits

variable {text : List Char} (filled : text ≠ []) (decimal : Text.allDigits text = true)

include filled decimal

theorem natural?_digits : Text.natural? text = some (Text.digitsValue text) := by
  simp [Text.natural?, filled, decimal]

theorem index?_digits : index? text =
    if Text.digitsValue text < maxIndex then .ok (Text.digitsValue text)
    else .error (.invalid (.indexNotNumber (.ofList text))) := by
  have unsigned : ∀ rest, text ≠ '+' :: rest := fun rest sign =>
    not_mem_of_digits (c := '+') decimal rfl (sign ▸ List.mem_cons_self)
  rw [index?.eq_def]
  split
  · exact absurd rfl (unsigned _)
  · simp only [natural?_digits filled decimal]

end Digits

theorem natDigits_decimal (i : Nat) : natDigits i ≠ [] ∧ Text.allDigits (natDigits i) = true :=
  ⟨Nat.toDigits_ne_nil, allDigits_iff.mpr isDigit_of_mem_natDigits⟩

theorem digitsValue_natDigits (i : Nat) : Text.digitsValue (natDigits i) = i :=
  Nat.ofDigitChars_toDigits (by decide) (by decide)

theorem natural?_natDigits (i : Nat) : Text.natural? (natDigits i) = some i := by
  obtain ⟨filled, decimal⟩ := natDigits_decimal i
  rw [natural?_digits filled decimal, digitsValue_natDigits]

theorem index?_natDigits (i : Nat) : index? (natDigits i) =
    if i < maxIndex then .ok i
    else .error (.invalid (.indexNotNumber (.ofList (natDigits i)))) := by
  obtain ⟨filled, decimal⟩ := natDigits_decimal i
  rw [index?_digits filled decimal, digitsValue_natDigits]

theorem index?_chars {token : List Char} {i : Nat} (ok : index? token = .ok i) :
    ∀ c ∈ token, c = '+' ∨ c.isDigit = true := by
  have digits {text : List Char} {n : Nat} (read : Text.natural? text = some n) :
      ∀ c ∈ text, c.isDigit = true := by
    unfold Text.natural? at read
    split at read
    · cases read
    · next number => exact allDigits_iff.mp (by simp_all)
  rw [index?.eq_def] at ok
  dsimp only at ok
  split at ok
  · next number =>
    intro c member
    split at number
    · next rest sign =>
      obtain rfl | inside := List.mem_cons.mp member
      · exact .inl rfl
      · exact .inr (digits number c inside)
    · exact .inr (digits number c member)
  · split at ok <;> cases ok

theorem clean_token {token : List Char} {i : Nat} (ok : index? token = .ok i) :
    Substitute.Clean token := by
  intro c member
  obtain rfl | digit := index?_chars ok c member
  · rfl
  · have apart (d : Char) (other : d.isDigit = false) : c ≠ d := by
      rintro rfl
      simp [other] at digit
    simp [Substitute.isClean, apart '?' rfl, apart '\'' rfl, apart '\\' rfl]

theorem stepText_index (i : Nat) : stepText (.index i) = '[' :: (natDigits i ++ [']']) := by
  have clean : Substitute.Clean (PathStep.index i).text.toList := by
    simp +decide [PathStep.text, Substitute.clean_natText]
  rw [stepText, Substitute.doubled_of_clean rfl clean]
  simp [PathStep.text, natText]

theorem stepText_key (key : List Char) :
    stepText (.key (.ofList key)) = '.' :: '"' :: (Text.doubled '\'' key ++ ['"']) := by
  have text : (PathStep.key (.ofList key)).text.toList = '"' :: (key ++ ['"']) := by
    simp [PathStep.text]
  rw [stepText, text, Text.doubled_cons_of_ne (by decide), Text.doubled_append]
  rfl

theorem append_mark_iff {mark : Char} {a b x y : List Char} (ha : mark ∉ a) (hb : mark ∉ b) :
    a ++ mark :: x = b ++ mark :: y ↔ a = b ∧ x = y := by
  induction a generalizing b with
  | nil =>
    cases b with
    | nil => simp
    | cons d b => simp [List.ne_of_not_mem_cons hb]
  | cons c a ih =>
    cases b with
    | nil => simp [(List.ne_of_not_mem_cons ha).symm]
    | cons d b =>
      have rest := ih (List.not_mem_of_not_mem_cons ha) (List.not_mem_of_not_mem_cons hb)
      simp [rest, and_assoc]

theorem bracketed_iff {tokens : List (List Char)} {indexes : List PathStep}
    (ok : (tokens.map fun token => (index? token).map PathStep.index) = indexes.map .ok)
    (x y : List Char) : bracketed tokens ++ x = indexes.flatMap stepText ++ y ↔
      (∀ token ∈ tokens, IsNumeral token) ∧ x = y := by
  induction tokens generalizing indexes with
  | nil =>
    obtain rfl : indexes = [] := by simpa using ok.symm
    simp [bracketed]
  | cons token tokens ih =>
    obtain ⟨step, rest, rfl, first, others⟩ := List.map_eq_cons_iff.mp ok.symm
    obtain ⟨i, index, rfl⟩ := map_ok first.symm
    have free {text : List Char} (chars : ∀ c ∈ text, c = '+' ∨ c.isDigit = true) : ']' ∉ text :=
      fun member => absurd (chars ']' member) (by decide)
    have numeral : token = natDigits i ↔ IsNumeral token := by
      constructor
      · exact fun same => ⟨i, same⟩
      · rintro ⟨j, rfl⟩
        rw [index?_natDigits] at index
        split at index
        · rw [Except.ok.inj index]
        · cases index
    calc bracketed (token :: tokens) ++ x = (PathStep.index i :: rest).flatMap stepText ++ y
        ↔ token ++ ']' :: (bracketed tokens ++ x)
          = natDigits i ++ ']' :: (rest.flatMap stepText ++ y) := by
          simp [bracketed, stepText_index]
      _ ↔ token = natDigits i ∧ bracketed tokens ++ x = rest.flatMap stepText ++ y :=
          append_mark_iff (free (index?_chars index))
            (free fun c member => .inr (isDigit_of_mem_natDigits c member))
      _ ↔ _ := by
          rw [numeral, ih others.symm, List.forall_mem_cons, and_assoc]

theorem infix_of_beforeQuote {text : List Char} (quoted : beforeQuote text = true) :
    ['\\', '\''] <:+: '\\' :: text := by
  induction text with
  | nil => cases quoted
  | cons c text ih =>
    by_cases backslash : c = '\\'
    · subst backslash
      exact (ih quoted).trans (List.suffix_cons _ _).isInfix
    · by_cases quote : c = '\''
      · subst quote
        exact (List.prefix_append ['\\', '\''] text).isInfix
      · rw [beforeQuote_plain backslash quote] at quoted
        cases quoted

/-- Escaped and doubled quotes differ first where a backslash stands before a quote. -/
theorem escaped_iff_doubled (key x y : List Char) :
    escapeQuotes 0 key ++ x = Text.doubled '\'' key ++ y ↔
      ¬ ['\\', '\''] <:+: key ∧ x = y := by
  induction key with
  | nil => simp [escapeQuotes, Text.doubled]
  | cons c key ih =>
    by_cases backslash : c = '\\'
    · subst backslash
      rw [escapeQuotes_backslash, Text.doubled_cons_of_ne (by decide)]
      split
      · next quoted =>
        have head := head_escapeQuotes key
        rw [if_pos quoted] at head
        obtain ⟨rest, text⟩ := List.head?_eq_some_iff.mp head
        simp [text, infix_of_beforeQuote quoted]
      · next plain =>
        have other : ¬ ['\\', '\''] <+: '\\' :: key := by
          rintro ⟨rest, same⟩
          obtain rfl : '\'' :: rest = key := (List.cons.inj same).2
          exact plain rfl
        rw [List.infix_cons_iff, not_or, and_iff_right other, ← ih]
        simp
    · have other : ¬ ['\\', '\''] <+: c :: key := by
        simp [Ne.symm backslash]
      rw [List.infix_cons_iff, not_or, and_iff_right other, ← ih]
      by_cases quote : c = '\''
      · subst quote
        simp [escapeQuotes_quote, Text.doubled]
      · simp [escapeQuotes_plain backslash quote, Text.doubled, quote]

theorem key_iff {key : List Char} (some : key ≠ []) {first : List PathStep}
    (ok : keyStep key = first.map .ok) (x y : List Char) :
    '.' :: '"' :: (escapeQuotes 0 key ++ '"' :: x) = first.flatMap stepText ++ y ↔
      (Text.allDigits key = false ∧ ¬ ['\\', '\''] <:+: key) ∧ x = y := by
  rw [keyStep, if_neg some] at ok
  by_cases digits : Text.allDigits key = true
  · rw [if_pos digits] at ok
    obtain ⟨step, rfl, read⟩ := List.map_eq_singleton_iff.mp ok.symm
    obtain ⟨i, -, rfl⟩ := map_ok read.symm
    simp [stepText_index, digits]
  · rw [if_neg digits] at ok
    obtain ⟨step, rfl, read⟩ := List.map_eq_singleton_iff.mp ok.symm
    obtain rfl := Except.ok.inj read
    have whole := escaped_iff_doubled key ('"' :: x) ('"' :: y)
    rw [List.cons.injEq, and_iff_right rfl] at whole
    simpa [stepText_key, digits] using whole

theorem quotedSegment_escapeQuotes {segment : List Char} (filled : segment ≠ [])
    (clean : ∀ token ∈ (splitGroups segment).2, Substitute.Clean token) :
    quotedSegment (escapeQuotes 0 segment) =
      if (splitGroups segment).1 = [] then bracketed (splitGroups segment).2
      else '"' :: (escapeQuotes 0 (splitGroups segment).1
        ++ '"' :: bracketed (splitGroups segment).2) := by
  have parts := splitGroups_escapeQuotes segment
  have whole := splitGroups_text segment
  have same : (splitGroups segment).2.map (escapeQuotes 0) = (splitGroups segment).2 := by
    have each : (splitGroups segment).2.map (escapeQuotes 0) = (splitGroups segment).2.map id :=
      List.map_congr_left fun token member => Substitute.escapeQuotes_of_clean (clean token member)
    rw [each, List.map_id]
  unfold quotedSegment
  rw [parts, same]
  generalize splitGroups segment = read at whole
  obtain ⟨key, tokens⟩ := read
  cases tokens with
  | nil =>
    obtain rfl : key = segment := by simpa [bracketed] using whole
    rw [if_neg filled]
    rfl
  | cons token tokens =>
    by_cases none : key = []
    · subst none
      rfl
    · rw [if_neg none]
      cases escaped : escapeQuotes 0 key with
      | nil => exact absurd (escapeQuotes_eq_nil.mp escaped) none
      | cons c rest => rfl

/-! ### Paths -/

/-- A segment that is written as it is read: its indexes as numbers are, its key, if it has one,
not as an index, and no backslash of the key before a quote. -/
structure Faithful (segment : List Char) : Prop where
  indexes : ∀ token ∈ (splitGroups segment).2, IsNumeral token
  key : (splitGroups segment).1 ≠ [] → Text.allDigits (splitGroups segment).1 = false
  quotes : ¬ ['\\', '\''] <:+: (splitGroups segment).1

section Segment

variable {segment : List Char} {written : List PathStep}

/-- The steps of a segment: of its key, and of the groups at its end. -/
theorem segmentSteps_ok (ok : segmentSteps segment = written.map .ok) :
    segment ≠ [] ∧ (∀ token ∈ (splitGroups segment).2, Substitute.Clean token) ∧
      ∃ first indexes, written = first ++ indexes ∧
        keyStep (splitGroups segment).1 = first.map .ok ∧
        ((splitGroups segment).2.map fun token => (index? token).map PathStep.index)
          = indexes.map .ok := by
  rw [segmentSteps] at ok
  split at ok
  · cases written with
    | nil => cases ok
    | cons step steps => cases (List.cons.inj ok).1
  · next filled =>
    have parts : keyStep (splitGroups segment).1
        ++ ((splitGroups segment).2.map fun token => (index? token).map PathStep.index)
          = written.map .ok := ok
    obtain ⟨first, indexes, rfl, firstOk, indexesOk⟩ := List.map_eq_append_iff.mp parts.symm
    refine ⟨filled, ?_, first, indexes, rfl, firstOk.symm, indexesOk.symm⟩
    intro token member
    have read := List.mem_map_of_mem (f := fun token => (index? token).map PathStep.index) member
    rw [← indexesOk] at read
    obtain ⟨step, -, found⟩ := List.mem_map.mp read
    obtain ⟨i, index, -⟩ := map_ok found.symm
    exact clean_token index

theorem segment_of_key (ok : segmentSteps segment = written.map .ok)
    (keyed : (splitGroups segment).1 ≠ []) (x y : List Char) :
    '.' :: (quotedSegment (escapeQuotes 0 segment) ++ x) = written.flatMap stepText ++ y ↔
      Faithful segment ∧ x = y := by
  obtain ⟨filled, clean, first, indexes, rfl, firstOk, indexesOk⟩ := segmentSteps_ok ok
  have faithful : Faithful segment ↔ (Text.allDigits (splitGroups segment).1 = false ∧
      ¬ ['\\', '\''] <:+: (splitGroups segment).1) ∧
      ∀ token ∈ (splitGroups segment).2, IsNumeral token :=
    ⟨fun h => ⟨⟨h.key keyed, h.quotes⟩, h.indexes⟩, fun h => ⟨h.2, fun _ => h.1.1, h.1.2⟩⟩
  rw [quotedSegment_escapeQuotes filled clean, if_neg keyed, List.flatMap_append,
    List.append_assoc, faithful, and_assoc, ← bracketed_iff indexesOk x y, ← key_iff keyed firstOk]
  simp

theorem segment_of_groups (ok : segmentSteps segment = written.map .ok)
    (bare : (splitGroups segment).1 = []) (x y : List Char) :
    quotedSegment (escapeQuotes 0 segment) ++ x = written.flatMap stepText ++ y ↔
      Faithful segment ∧ x = y := by
  obtain ⟨filled, clean, first, indexes, rfl, firstOk, indexesOk⟩ := segmentSteps_ok ok
  have faithful : Faithful segment ↔ ∀ token ∈ (splitGroups segment).2, IsNumeral token :=
    ⟨Faithful.indexes, fun h => ⟨h, fun keyed => absurd bare keyed, by simp [bare]⟩⟩
  rw [keyStep, if_pos bare] at firstOk
  obtain rfl : first = [] := by simpa using firstOk.symm
  rw [quotedSegment_escapeQuotes filled clean, if_pos bare, faithful, ← bracketed_iff indexesOk x y]
  simp

theorem groups_of_bare (filled : segment ≠ []) (bare : (splitGroups segment).1 = []) :
    ∃ token tokens, (splitGroups segment).2 = token :: tokens := by
  apply List.exists_cons_of_ne_nil
  intro none
  have whole := splitGroups_text segment
  rw [bare, none] at whole
  exact filled whole.symm

/-- Behind other segments one of groups alone is read after a point and written without. -/
theorem segment_behind (ok : segmentSteps segment = written.map .ok) (x y : List Char) :
    '.' :: (quotedSegment (escapeQuotes 0 segment) ++ x) = written.flatMap stepText ++ y ↔
      ((splitGroups segment).1 ≠ [] ∧ Faithful segment) ∧ x = y := by
  by_cases keyed : (splitGroups segment).1 = []
  · obtain ⟨filled, clean, first, indexes, rfl, firstOk, indexesOk⟩ := segmentSteps_ok ok
    rw [keyStep, if_pos keyed] at firstOk
    obtain rfl : first = [] := by simpa using firstOk.symm
    obtain ⟨token, tokens, groups⟩ := groups_of_bare filled keyed
    rw [groups] at indexesOk
    obtain ⟨step, rest, rfl, read, -⟩ := List.map_eq_cons_iff.mp indexesOk.symm
    obtain ⟨i, -, rfl⟩ := map_ok read.symm
    simp [keyed, stepText_index]
  · rw [segment_of_key ok keyed, and_iff_right keyed]

end Segment

theorem segments_behind {segments : List (List Char)} {written : List PathStep}
    (ok : segments.flatMap segmentSteps = written.map .ok) (x y : List Char) :
    (segments.flatMap fun segment => '.' :: quotedSegment (escapeQuotes 0 segment)) ++ x
        = written.flatMap stepText ++ y ↔
      (∀ segment ∈ segments, (splitGroups segment).1 ≠ [] ∧ Faithful segment) ∧ x = y := by
  induction segments generalizing written with
  | nil =>
    obtain rfl : written = [] := by simpa using ok.symm
    simp
  | cons segment segments ih =>
    rw [List.flatMap_cons] at ok
    obtain ⟨own, others, rfl, ownOk, othersOk⟩ := List.map_eq_append_iff.mp ok.symm
    rw [List.forall_mem_cons, and_assoc, ← ih othersOk.symm, ← segment_behind ownOk.symm]
    simp

/-- A path that is read as it is written: only its first segment may be groups alone. -/
structure ReadAsWritten (path : List Char) : Prop where
  faithful : ∀ segment ∈ Text.splitArrows path, Faithful segment
  keyed : ∀ segment ∈ (Text.splitArrows path).tail, (splitGroups segment).1 ≠ []

theorem intercalate_point (first : List Char) (rest : List (List Char)) :
    ['.'].intercalate (first :: rest) = first ++ rest.flatMap fun segment => '.' :: segment := by
  induction rest generalizing first with
  | nil => simp
  | cons next rest ih =>
    rw [List.intercalate_cons_cons, ih]
    simp

/-- The point before the first segment goes with its key. -/
theorem readLiteral_eq {path first : List Char} {rest : List (List Char)}
    (split : Text.splitArrows path = first :: rest) (filled : first ≠ [])
    (clean : ∀ token ∈ (splitGroups first).2, Substitute.Clean token) :
    readLiteral path = '\'' :: '$' :: ((if (splitGroups first).1 = [] then [] else ['.'])
      ++ (quotedSegment (escapeQuotes 0 first)
        ++ (rest.flatMap (fun segment => '.' :: quotedSegment (escapeQuotes 0 segment))
          ++ ['\'']))) := by
  have opening := quotedSegment_escapeQuotes filled clean
  have body : ['.'].intercalate ((Text.splitArrows (escapeQuotes 0 path)).map quotedSegment)
      = quotedSegment (escapeQuotes 0 first)
        ++ rest.flatMap fun segment => '.' :: quotedSegment (escapeQuotes 0 segment) := by
    rw [splitArrows_escapeQuotes, split, List.map_map, List.map_cons, intercalate_point,
      List.flatMap_map]
    rfl
  rw [readLiteral, body]
  by_cases bare : (splitGroups first).1 = []
  · obtain ⟨token, tokens, groups⟩ := groups_of_bare filled bare
    rw [if_pos bare, groups] at opening
    simp [opening, bare, bracketed]
  · rw [if_neg bare] at opening
    simp [opening, bare]

theorem readLiteral_iff {path : List Char} {written : List PathStep}
    (ok : steps path = .ok written) :
    readLiteral path = '\'' :: (stepsText written ++ ['\'']) ↔ ReadAsWritten path := by
  have read := allOk_eq_ok.mp ok
  obtain ⟨first, rest, split, -⟩ := splitArrows_head path
  rw [split, List.flatMap_cons] at read
  obtain ⟨own, others, rfl, ownOk, othersOk⟩ := List.map_eq_append_iff.mp read.symm
  have parts : ReadAsWritten path ↔ Faithful first ∧
      ∀ segment ∈ rest, (splitGroups segment).1 ≠ [] ∧ Faithful segment := by
    constructor
    · rintro ⟨faithful, keyed⟩
      rw [split] at faithful keyed
      obtain ⟨head, tail⟩ := List.forall_mem_cons.mp faithful
      exact ⟨head, fun segment member => ⟨keyed segment member, tail segment member⟩⟩
    · rintro ⟨head, tail⟩
      constructor
      · rw [split]
        exact List.forall_mem_cons.mpr ⟨head, fun segment member => (tail segment member).2⟩
      · rw [split]
        exact fun segment member => (tail segment member).1
  have behind := segments_behind othersOk.symm ['\''] ['\'']
  rw [and_iff_left rfl] at behind
  obtain ⟨filled, clean, -⟩ := segmentSteps_ok ownOk.symm
  rw [parts, ← behind, readLiteral_eq split filled clean, stepsText, List.flatMap_append]
  by_cases bare : (splitGroups first).1 = []
  · rw [← segment_of_groups ownOk.symm bare, if_pos bare]
    simp
  · rw [← segment_of_key ownOk.symm bare, if_neg bare]
    simp

end SqlCompiler.JsonPath

namespace SqlCompiler

/-- A selector reads what an update with its path writes just when every segment of the path is
written as it is read, and none but the first is groups alone. -/
theorem Engine.readsAsWritten_iff {e : Engine} {selector : String} {column path : List Char}
    {written : List PathStep} (cut : Text.cutArrow? selector.toList = some (column, path))
    (ok : JsonPath.steps path = .ok written) :
    (e.fieldAndPath selector).2 = ", " ++ JsonPath.writeLiteral written ↔
      JsonPath.ReadAsWritten path := by
  rw [fieldAndPath, cut, ← JsonPath.readLiteral_iff ok, JsonPath.writeLiteral,
    String.append_right_inj, String.ofList_inj]

theorem firstTag_readAsWritten :
    Text.cutArrow? "meta->tags[0]->name".toList = some ("meta".toList, "tags[0]->name".toList) ∧
    (∃ written, JsonPath.steps "tags[0]->name".toList = .ok written) ∧
    JsonPath.ReadAsWritten "tags[0]->name".toList := by
  have cut : Text.cutArrow? "meta->tags[0]->name".toList
      = some ("meta".toList, "tags[0]->name".toList) := by decide
  have ok : JsonPath.steps "tags[0]->name".toList = .ok [.key "tags", .index 0, .key "name"] :=
    rfl
  have same : ((Engine.mk .mysql {}).fieldAndPath "meta->tags[0]->name").2
      = ", " ++ JsonPath.writeLiteral [.key "tags", .index 0, .key "name"] := by decide +kernel
  exact ⟨cut, ⟨_, ok⟩, (Engine.readsAsWritten_iff cut ok).mp same⟩

/-- Digits alone are a key where they are read and an index where they are written. -/
theorem firstTag_readOtherwise :
    Text.cutArrow? "meta->tags->0".toList = some ("meta".toList, "tags->0".toList) ∧
    ∃ written, JsonPath.steps "tags->0".toList = .ok written ∧
      ((Engine.mk .mysql {}).fieldAndPath "meta->tags->0").2 = ", '$.\"tags\".\"0\"'" ∧
      JsonPath.writeLiteral written = "'$.\"tags\"[0]'" ∧
      ((Engine.mk .mysql {}).fieldAndPath "meta->tags->0").2
        ≠ ", " ++ JsonPath.writeLiteral written := by
  refine ⟨by decide, [.key "tags", .index 0], rfl, ?_, ?_, ?_⟩ <;> decide +kernel

end SqlCompiler
