import SqlCompiler.Json.Printer
import SqlCompiler.Json.Reader
/-!
# Printed JSON is read back

A value without fractions, whose integers fit 64 bits, is what its own text writes: the lexer cuts
the text into the tokens of the value, and from these the value is put together again.
-/

namespace SqlCompiler.Json

mutual

/-- No number with a fraction, and no integer beyond 64 bits. -/
def Exact : Json → Prop
  | int n => -(twoTo 63) ≤ n ∧ n < UInt64.size
  | float _ => False
  | arr items => ExactItems items
  | obj members => ExactMembers members
  | null | bool _ | str _ => True

def ExactItems : List Json → Prop
  | [] => True
  | item :: items => item.Exact ∧ ExactItems items

def ExactMembers : List (String × Json) → Prop
  | [] => True
  | (_, value) :: members => value.Exact ∧ ExactMembers members

end

@[simp] theorem exact_null : null.Exact := trivial

@[simp] theorem exact_bool (b : Bool) : (bool b).Exact := trivial

@[simp] theorem exact_str (s : String) : (str s).Exact := trivial

@[simp] theorem exact_obj {members : List (String × Json)} :
    (obj members).Exact ↔ ExactMembers members :=
  .rfl

@[simp] theorem exactMembers_nil : ExactMembers [] := trivial

@[simp] theorem exactMembers_cons {member : String × Json} {members : List (String × Json)} :
    ExactMembers (member :: members) ↔ member.2.Exact ∧ ExactMembers members :=
  .rfl

theorem exactItems_iff {items : List Json} : ExactItems items ↔ ∀ item ∈ items, item.Exact := by
  induction items with
  | nil => simp [ExactItems]
  | cons item items ih => simp [ExactItems, ih]

mutual

/-- A value as it is written. -/
def written : Json → Written
  | arr items => .arr (writtenItems items)
  | obj members => .obj (writtenMembers members)
  | scalar => .scalar scalar

def writtenItems : List Json → List Written
  | [] => []
  | item :: items => item.written :: writtenItems items

def writtenMembers : List (String × Json) → List (Option String × Written)
  | [] => []
  | (name, value) :: members => (some name, value.written) :: writtenMembers members

end

theorem le_ofDigitChars (digits : List Char) (n : Nat) : n ≤ Nat.ofDigitChars 10 digits n := by
  induction digits generalizing n with
  | nil => exact Nat.le_refl n
  | cons c digits ih =>
    have := ih (10 * n + (c.toNat - '0'.toNat))
    rw [Nat.ofDigitChars, List.foldl_cons] at *
    omega

/-- Digits are gathered as long as their number fits. -/
theorem gather_digits {digits : List Char} (h : ∀ c ∈ digits, c.isDigit = true) (n taken : Nat)
    (fits : Nat.ofDigitChars 10 digits n ≤ maxSignificand) :
    ∃ taken', gather n taken digits = (Nat.ofDigitChars 10 digits n, taken', []) := by
  induction digits generalizing n taken with
  | nil => exact ⟨taken, rfl⟩
  | cons c digits ih =>
    obtain ⟨first, rest⟩ := List.forall_mem_cons.mp h
    have next : 10 * n + (c.toNat - '0'.toNat) ≤ maxSignificand :=
      Nat.le_trans (le_ofDigitChars digits _) fits
    rw [gather]
    simp only [first, decide_eq_true next, Bool.and_self, if_true]
    exact ih rest _ _ fits

/-- A number has no leading zero, unless it is zero. -/
theorem head_natDigits {n : Nat} (h : n ≠ 0) : ∀ c ∈ (natDigits n).head?, c ≠ '0' := by
  induction n using Nat.strongRecOn with
  | ind n ih =>
    unfold natDigits at ih ⊢
    by_cases small : n < 10
    · rw [Nat.toDigits_of_lt_base small]
      have each : ∀ d < 10, d ≠ 0 → Nat.digitChar d ≠ '0' := by decide
      rintro c ⟨⟩
      exact each n small h
    · rw [Nat.toDigits_of_base_le (by decide) (by omega)]
      rw [List.head?_append, Option.or_of_isSome (List.isSome_head?.mpr Nat.toDigits_ne_nil)]
      exact ih (n / 10) (by omega) (by omega)

theorem unsignedNumber?_natDigits {n : Nat} (h : n ≤ maxSignificand) (negative : Bool) :
    unsignedNumber? negative (natDigits n)
      = some (.scalar (Literal.whole { negative, significand := n, exponent := 0 })) := by
  have digits : ∀ c ∈ natDigits n, c.isDigit = true := isDigit_of_mem_natDigits
  have value : Nat.ofDigitChars 10 (natDigits n) 0 = n :=
    Nat.ofDigitChars_toDigits (by decide) (by decide)
  obtain ⟨taken, gathered⟩ := gather_digits digits 0 0 (value.symm ▸ h)
  rw [value] at gathered
  simp [unsignedNumber?, gathered]

/-- The digits of a number are read as such, whatever their sign. -/
theorem number?_natDigits (n : Nat) :
    number? (natDigits n) = unsignedNumber? false (natDigits n) ∧
      number? ('-' :: natDigits n) = unsignedNumber? true (natDigits n) := by
  have digits : ∀ c ∈ natDigits n, c.isDigit = true := isDigit_of_mem_natDigits
  by_cases zero : n = 0
  · subst zero
    exact ⟨rfl, rfl⟩
  have lead := head_natDigits zero
  revert digits lead
  cases text : natDigits n with
  | nil => exact absurd text Nat.toDigits_ne_nil
  | cons c rest =>
    intro digits lead
    have digit : c.isDigit = true := digits c (List.mem_cons_self ..)
    have nonzero : c ≠ '0' := lead c rfl
    have unsigned : c ≠ '-' := by
      rintro rfl
      cases digit
    constructor <;> simp [number?, digit, nonzero, unsigned]

theorem number?_intText {n : Int} (low : -(twoTo 63) ≤ n) (high : n < UInt64.size) :
    number? (intText n).toList = some (.scalar (.int n)) := by
  have least : twoTo 63 = 9223372036854775808 := by decide
  have most : UInt64.size = 18446744073709551616 := by decide
  have greatest : maxSignificand = 18446744073709551615 := by decide
  rw [least] at low
  rw [most] at high
  rw [intText]
  split
  · next negative =>
    have text : ("-" ++ natText n.natAbs).toList = '-' :: natDigits n.natAbs := by
      simp [natText]
    rw [text, (number?_natDigits _).2, unsignedNumber?_natDigits (by omega)]
    have fits : ¬ (n.natAbs = 0 ∨ n.natAbs > twoTo 63) := by omega
    have value : -(n.natAbs : Int) = n := by omega
    simp only [Literal.whole, Bool.not_true, Bool.false_eq_true, if_false, if_neg fits, value]
  · next positive =>
    have text : (natText n.natAbs).toList = natDigits n.natAbs := by simp [natText]
    rw [text, (number?_natDigits _).1, unsignedNumber?_natDigits (by omega)]
    have value : (n.natAbs : Int) = n := by omega
    simp only [Literal.whole, Bool.not_false, if_true, value]

/-! ### Tokens -/

mutual

def tokens : Json → List Token
  | arr items => .mark '[' :: (itemTokens items ++ [.mark ']'])
  | obj members => .mark '\x7b' :: (memberTokens members ++ [.mark '\x7d'])
  | str s => [.quoted (some s)]
  | scalar => [.word (.scalar scalar)]

def itemTokens : List Json → List Token
  | [] => []
  | [item] => item.tokens
  | item :: items => item.tokens ++ .mark ',' :: itemTokens items

def memberTokens : List (String × Json) → List Token
  | [] => []
  | [(name, value)] => .quoted (some name) :: .mark ':' :: value.tokens
  | (name, value) :: members =>
    .quoted (some name) :: .mark ':' :: (value.tokens ++ .mark ',' :: memberTokens members)

end

/-- The text goes on with a mark, or not at all: no word goes on with it. -/
def Ends (rest : List Char) : Prop :=
  ∀ c ∈ rest.head?, isMark c = true

theorem isGap_of_isMark {c : Char} (h : isMark c = true) : isGap c = false := by
  simp only [isMark, Bool.or_eq_true, beq_iff_eq] at h
  rcases h with ((((rfl | rfl) | rfl) | rfl) | rfl) | rfl <;> rfl

theorem lex_mark {c : Char} (h : isMark c = true) (rest : List Char) :
    lex .outside (c :: rest) = (lex .outside rest).map (.mark c :: ·) := by
  rw [lex]
  simp [h, isGap_of_isMark h]

/-- A character that goes on with a word, and may begin one. -/
def isWordly (c : Char) : Bool :=
  !isGap c && !isMark c && c != '"'

/-- A word is read to its end. -/
theorem lex_word_append {text : List Char} (h : text.all isWordly = true)
    (before rest : List Char) :
    lex (.word before) (text ++ rest) = lex (.word (text.reverse ++ before)) rest := by
  induction text generalizing before with
  | nil => rfl
  | cons c text ih =>
    rw [List.all_cons, Bool.and_eq_true] at h
    obtain ⟨first, others⟩ := h
    simp only [isWordly, Bool.and_eq_true, Bool.not_eq_true'] at first
    rw [List.cons_append, lex]
    simp [first, ih others]

theorem lex_word_ends {rest : List Char} (h : Ends rest) (before : List Char) :
    lex (.word before) rest
      = (word? before.reverse).bind fun w => (lex .outside rest).map (.word w :: ·) := by
  cases rest with
  | nil => cases found : word? before.reverse <;> simp [lex, found]
  | cons c rest =>
    have mark : isMark c = true := h c rfl
    rw [lex_mark mark, lex]
    simp only [isGap_of_isMark mark, mark, Bool.false_eq_true, if_false, if_true]
    cases word? before.reverse <;> cases lex .outside rest <;> rfl

theorem lex_word {text rest : List Char} {value : Json} (h : text.all isWordly = true)
    (word : word? text = some (.scalar value)) (ends : Ends rest) :
    lex .outside (text ++ rest) = (lex .outside rest).map (.word (.scalar value) :: ·) := by
  cases text with
  | nil => cases word
  | cons c text =>
    rw [List.all_cons, Bool.and_eq_true] at h
    obtain ⟨first, others⟩ := h
    simp only [isWordly, Bool.and_eq_true, Bool.not_eq_true', bne_iff_ne, ne_eq] at first
    rw [List.cons_append, lex]
    simp only [first, Bool.false_eq_true, if_false]
    rw [lex_word_append others, lex_word_ends ends]
    simp [word]

theorem isWordly_of_isDigit {c : Char} (h : c.isDigit = true) : isWordly c = true := by
  have apart (d : Char) (other : d.isDigit = false) : c ≠ d := by
    rintro rfl
    simp [other] at h
  simp [isWordly, isGap, isMark, apart ' ' rfl, apart '\n' rfl, apart '\r' rfl, apart '\t' rfl,
    apart '[' rfl, apart ']' rfl, apart '\x7b' rfl, apart '\x7d' rfl, apart ',' rfl, apart ':' rfl,
    apart '"' rfl]

theorem isWordly_intText (n : Int) : (intText n).toList.all isWordly = true := by
  have digits (m : Nat) : (natDigits m).all isWordly = true :=
    List.all_eq_true.mpr fun c member =>
      isWordly_of_isDigit (isDigit_of_mem_natDigits c member)
  rw [intText]
  split
  · have text : ("-" ++ natText n.natAbs).toList = '-' :: natDigits n.natAbs := by simp [natText]
    rw [text, List.all_cons, digits]
    rfl
  · have text : (natText n.natAbs).toList = natDigits n.natAbs := by simp [natText]
    rw [text, digits]

theorem word?_intText {n : Int} (low : -(twoTo 63) ≤ n) (high : n < UInt64.size) :
    word? (intText n).toList = some (.scalar (.int n)) := by
  have number := number?_intText low high
  -- The three names are no numbers.
  have apart (name : List Char) (other : number? name = none) : (intText n).toList ≠ name := by
    rintro same
    rw [same, other] at number
    cases number
  rw [word?, if_neg (apart _ rfl), if_neg (apart _ rfl), if_neg (apart _ rfl), number]

/-- How a character stands in a quoted text. -/
def quotedPart (c : Char) : QuotedPart :=
  if c.toNat < 0x20 ∧ c ≠ '\x08' ∧ c ≠ '\x0c' ∧ c ≠ '\n' ∧ c ≠ '\r' ∧ c ≠ '\t' then .unit c.toNat
  else .char c

/-- A control character without a letter of its own is written with the number of its unit. -/
theorem lex_control {c : Char} (h : c.toNat < 0x20) (before : List QuotedPart)
    (rest : List Char) :
    lex (.quoted before) (['\\', 'u', '0', '0'] ++ Text.hexOctet c.toNat.toUInt8 ++ rest)
      = lex (.quoted (.unit c.toNat :: before)) rest := by
  have digit : ∀ d < 16, Text.hexValue? (Text.hexDigit d) = some d := by decide
  have zero : Text.hexValue? '0' = some 0 := rfl
  have octet : c.toNat.toUInt8.toNat = c.toNat := by
    simp
    omega
  have high := digit (c.toNat / 16) (by omega)
  have low := digit (c.toNat % 16) (by omega)
  have value : 16 * (c.toNat / 16) + c.toNat % 16 = c.toNat := by omega
  simp [lex, Text.hexOctet, octet, zero, high, low, value]

theorem lex_escapeChar (c : Char) (before : List QuotedPart) (rest : List Char) :
    lex (.quoted before) (escapeChar c ++ rest) = lex (.quoted (quotedPart c :: before)) rest := by
  have letter (d e : Char) (h : escapeChar d = ['\\', e]) (h' : escaped? e = some d)
      (not : e ≠ 'u') (part : quotedPart d = .char d) :
      lex (.quoted before) (escapeChar d ++ rest)
        = lex (.quoted (quotedPart d :: before)) rest := by
    simp [h, part, lex, h', not]
  by_cases special : c ∈ ['"', '\\', '\x08', '\x0c', '\n', '\r', '\t']
  · simp only [List.mem_cons, List.not_mem_nil, or_false] at special
    rcases special with rfl | rfl | rfl | rfl | rfl | rfl | rfl
    · exact letter _ '"' rfl rfl (by decide) rfl
    · exact letter _ '\\' rfl rfl (by decide) rfl
    · exact letter _ 'b' rfl rfl (by decide) rfl
    · exact letter _ 'f' rfl rfl (by decide) rfl
    · exact letter _ 'n' rfl rfl (by decide) rfl
    · exact letter _ 'r' rfl rfl (by decide) rfl
    · exact letter _ 't' rfl rfl (by decide) rfl
  · simp only [List.mem_cons, List.not_mem_nil, or_false, not_or] at special
    obtain ⟨quote, backslash, b, f, n, r, t⟩ := special
    simp only [escapeChar, quotedPart, quote, backslash, b, f, n, r, t, if_false, ne_eq,
      not_false_eq_true, and_true]
    split
    · next control => exact lex_control control before rest
    · next plain => simp [lex, quote, backslash, plain]

theorem lex_escaped (text : List Char) (before : List QuotedPart) (rest : List Char) :
    lex (.quoted before) (text.flatMap escapeChar ++ rest)
      = lex (.quoted ((text.map quotedPart).reverse ++ before)) rest := by
  induction text generalizing before with
  | nil => rfl
  | cons c text ih => simp [lex_escapeChar, ih]

theorem quotedChars?_quotedPart (text : List Char) :
    quotedChars? (text.map quotedPart) = some text := by
  induction text with
  | nil => rfl
  | cons c text ih =>
    rw [List.map_cons, quotedPart]
    split
    · next control =>
      have low : isLowHalf c.toNat = false := by simp [isLowHalf]; omega
      have high : isHighHalf c.toNat = false := by simp [isHighHalf]; omega
      rw [quotedChars?.eq_def]
      simp [low, high, ih]
    · simp [quotedChars?, ih]

theorem lex_quoted (s : String) (rest : List Char) :
    lex .outside (quoted s ++ rest) = (lex .outside rest).map (.quoted (some s) :: ·) := by
  have opened : lex .outside ('"' :: (s.toList.flatMap escapeChar ++ '"' :: rest))
      = lex (.quoted []) (s.toList.flatMap escapeChar ++ '"' :: rest) := by
    rw [lex]
    simp [isGap, isMark]
  have text : quoted s ++ rest = '"' :: (s.toList.flatMap escapeChar ++ '"' :: rest) := by
    simp [quoted]
  rw [text, opened, lex_escaped, lex]
  simp [quotedChars?_quotedPart]

theorem ends_cons {c : Char} (h : isMark c = true) (rest : List Char) : Ends (c :: rest) := by
  rintro _ ⟨⟩
  exact h

mutual

/-- The tokens of a printed value are those of the value. -/
theorem lex_print {rest : List Char} (ends : Ends rest) : ∀ {j : Json}, j.Exact →
    lex .outside (j.print ++ rest) = (lex .outside rest).map (j.tokens ++ ·)
  | null, _ => lex_word rfl rfl ends
  | bool true, _ => lex_word rfl rfl ends
  | bool false, _ => lex_word rfl rfl ends
  | int n, h => lex_word (isWordly_intText n) (word?_intText h.1 h.2) ends
  | str s, _ => lex_quoted s rest
  | arr items, h => by
    have inner : lex .outside (printItems items ++ ']' :: rest)
        = (lex .outside (']' :: rest)).map (itemTokens items ++ ·) :=
      lex_printItems (ends_cons rfl rest) h
    simp only [print, tokens, List.cons_append, List.append_assoc, List.nil_append]
    rw [lex_mark rfl, inner, lex_mark rfl]
    simp [Function.comp_def]
  | obj members, h => by
    have inner : lex .outside (printMembers members ++ '\x7d' :: rest)
        = (lex .outside ('\x7d' :: rest)).map (memberTokens members ++ ·) :=
      lex_printMembers (ends_cons rfl rest) h
    simp only [print, tokens, List.cons_append, List.append_assoc, List.nil_append]
    rw [lex_mark rfl, inner, lex_mark rfl]
    simp [Function.comp_def]

theorem lex_printItems {rest : List Char} (ends : Ends rest) : ∀ {items : List Json},
    ExactItems items →
      lex .outside (printItems items ++ rest) = (lex .outside rest).map (itemTokens items ++ ·)
  | [], _ => by simp [printItems, itemTokens]
  | [item], h => lex_print ends h.1
  | item :: next :: items, h => by
    have first (rest : List Char) := lex_print (ends_cons (c := ',') rfl rest) h.1
    have others : lex .outside (printItems (next :: items) ++ rest)
        = (lex .outside rest).map (itemTokens (next :: items) ++ ·) := lex_printItems ends h.2
    simp only [printItems, itemTokens, List.append_assoc, List.cons_append]
    rw [first, lex_mark rfl, others]
    simp [Function.comp_def]

theorem lex_printMembers {rest : List Char} (ends : Ends rest) :
    ∀ {members : List (String × Json)}, ExactMembers members →
      lex .outside (printMembers members ++ rest)
        = (lex .outside rest).map (memberTokens members ++ ·)
  | [], _ => by simp [printMembers, memberTokens]
  | [(name, value)], h => by
    have inner := lex_print ends (j := value) h.1
    simp only [printMembers, memberTokens, List.append_assoc, List.cons_append]
    rw [lex_quoted, lex_mark rfl, inner]
    simp [Function.comp_def]
  | (name, value) :: next :: members, h => by
    have first (rest : List Char) := lex_print (ends_cons (c := ',') rfl rest) (j := value) h.1
    have others : lex .outside (printMembers (next :: members) ++ rest)
        = (lex .outside rest).map (memberTokens (next :: members) ++ ·) :=
      lex_printMembers ends h.2
    simp only [printMembers, memberTokens, List.append_assoc, List.cons_append]
    rw [lex_quoted, lex_mark rfl, first, lex_mark rfl, others]
    simp [Function.comp_def]

end

/-! ### From tokens to values -/

/-- An array that has an item does not begin like an empty one. -/
theorem build_firstItem {items : List Json} (h : items ≠ []) (stack : List Frame)
    (ts : List Token) :
    build .firstItem stack (itemTokens items ++ ts)
      = build .value (.items [] :: stack) (itemTokens items ++ ts) := by
  have first (j : Json) (ts : List Token) : build .firstItem stack (j.tokens ++ ts)
      = build .value (.items [] :: stack) (j.tokens ++ ts) := by
    cases j <;> simp [tokens, build, step, startValue]
  match items with
  | [] => exact absurd rfl h
  | [item] => exact first item ts
  | item :: next :: items => simpa [itemTokens] using first item _

/-- Nor does an object with a member, of which the name comes first. -/
theorem build_firstName {members : List (String × Json)} (h : members ≠ []) (stack : List Frame)
    (ts : List Token) :
    build .firstName stack (memberTokens members ++ ts)
      = build (.name []) stack (memberTokens members ++ ts) := by
  match members with
  | [] => exact absurd rfl h
  | [(name, value)] => simp [memberTokens, build, step]
  | (name, value) :: next :: members => simp [memberTokens, build, step]

mutual

/-- From the tokens of a value comes the value as it is written. -/
theorem build_tokens : ∀ (j : Json) (stack : List Frame) (ts : List Token),
    build .value stack (j.tokens ++ ts) = build (.after j.written) stack ts
  | null, stack, ts => by simp [tokens, build, step, startValue, written]
  | bool b, stack, ts => by simp [tokens, build, step, startValue, written]
  | int n, stack, ts => by simp [tokens, build, step, startValue, written]
  | float x, stack, ts => by simp [tokens, build, step, startValue, written]
  | str s, stack, ts => by simp [tokens, build, step, startValue, written]
  | arr items, stack, ts => by
    have opened : build .value stack ((arr items).tokens ++ ts)
        = build .firstItem stack (itemTokens items ++ .mark ']' :: ts) := by
      simp [tokens, build, step, startValue]
    rw [opened, written]
    by_cases empty : items = []
    · subst empty
      simp [itemTokens, build, step, writtenItems]
    · rw [build_firstItem empty]
      exact build_itemTokens items [] stack ts empty
  | obj members, stack, ts => by
    have opened : build .value stack ((obj members).tokens ++ ts)
        = build .firstName stack (memberTokens members ++ .mark '\x7d' :: ts) := by
      simp [tokens, build, step, startValue]
    rw [opened, written]
    by_cases empty : members = []
    · subst empty
      simp [memberTokens, build, step, writtenMembers]
    · rw [build_firstName empty]
      exact build_memberTokens members [] stack ts empty

theorem build_itemTokens : ∀ (items : List Json) (before : List Written) (stack : List Frame)
    (ts : List Token), items ≠ [] →
    build .value (.items before :: stack) (itemTokens items ++ .mark ']' :: ts)
      = build (.after (.arr (before.reverse ++ writtenItems items))) stack ts
  | [], before, stack, ts, h => absurd rfl h
  | [item], before, stack, ts, _ => by
    have first (ts : List Token) := build_tokens item (.items before :: stack) ts
    rw [itemTokens, first]
    simp [build, step, writtenItems]
  | item :: next :: items, before, stack, ts, _ => by
    have first (ts : List Token) := build_tokens item (.items before :: stack) ts
    have others := build_itemTokens (next :: items) (item.written :: before) stack ts (by simp)
    simp only [itemTokens, List.append_assoc, first]
    simp [build, step, others, writtenItems]

theorem build_memberTokens : ∀ (members : List (String × Json))
    (before : List (Option String × Written)) (stack : List Frame) (ts : List Token),
    members ≠ [] →
    build (.name before) stack (memberTokens members ++ .mark '\x7d' :: ts)
      = build (.after (.obj (before.reverse ++ writtenMembers members))) stack ts
  | [], before, stack, ts, h => absurd rfl h
  | [(name, value)], before, stack, ts, _ => by
    have first (ts : List Token) :=
      build_tokens value (.members before (some name) :: stack) ts
    simp [memberTokens, build, step, first, writtenMembers]
  | (name, value) :: next :: members, before, stack, ts, _ => by
    have first (ts : List Token) :=
      build_tokens value (.members before (some name) :: stack) ts
    have others :=
      build_memberTokens (next :: members) ((some name, value.written) :: before) stack ts (by simp)
    simp [memberTokens, build, step, first, others, writtenMembers]

end

/-- Printed text is well written, and writes the value that was printed. -/
theorem written?_text {j : Json} (h : j.Exact) : written? j.text = some j.written := by
  have lexed : lex .outside (j.print ++ []) = (lex .outside []).map (j.tokens ++ ·) :=
    lex_print (by rintro _ ⟨⟩) h
  have built := build_tokens j [] []
  rw [List.append_nil] at lexed built
  rw [written?, text, String.toList_ofList, lexed]
  simp [lex, built, build]

/-- From this place, every part of a value is looked at, and in the same way. -/
structure Outline.Covers {P : Type} (outline : Outline P) (place : P) : Prop where
  item : ∀ i, outline.item place i = place
  member : ∀ name, outline.member? place name = some place

section Seen

variable {P : Type} {outline : Outline P} {place : P}

mutual

theorem seen?_written (h : outline.Covers place) : ∀ j : Json,
    j.written.seen? outline place = some j
  | null | bool _ | int _ | float _ | str _ => rfl
  | arr items => by simp [written, Written.seen?, seenItems?_written h items 0]
  | obj members => by simp [written, Written.seen?, seenMembers?_written h members]

theorem seenItems?_written (h : outline.Covers place) : ∀ (items : List Json) (i : Nat),
    Written.seenItems? outline place i (writtenItems items) = some items
  | [], i => rfl
  | item :: items, i => by
    simp [writtenItems, Written.seenItems?, h.item, seen?_written h item,
      seenItems?_written h items (i + 1)]

theorem seenMembers?_written (h : outline.Covers place) : ∀ members : List (String × Json),
    Written.seenMembers? outline place (writtenMembers members) = some members
  | [] => rfl
  | (name, value) :: members => by
    simp [writtenMembers, Written.seenMembers?, h.member, seen?_written h value,
      seenMembers?_written h members]

end

end Seen

/-- The text of a value stands for that value. -/
theorem parse?_text {j : Json} (h : j.Exact) : parse? j.text = some j := by
  rw [parse?, written?_text h, Option.bind_some]
  exact seen?_written ⟨fun _ => rfl, fun _ => rfl⟩ j

end SqlCompiler.Json
