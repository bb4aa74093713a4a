import SqlCompiler.Proofs.Placeholders
/-!
# String literals

A literal stands between single quotes, and a quote inside it is written twice. Some engines read a
backslash as an escape: it takes the character behind it along, a quote too. A literal whose quotes
come in even runs, none of them behind a backslash, closes at its end in either reading. Without
escapes a literal is read as a text exactly if it was written for that text.
-/

namespace SqlCompiler.StringLiteral

/-- Whether a backslash in a literal takes the character behind it along. -/
inductive Lexing where
  | standard
  | backslash
deriving DecidableEq, Repr

/-- What follows a literal, read from behind its opening quote; none if it is not closed. -/
def after? (lexing : Lexing) : List Char → Option (List Char)
  | [] => none
  | '\'' :: '\'' :: rest => after? lexing rest
  | '\'' :: rest => some rest
  | '\\' :: c :: rest =>
    match lexing with
    | .standard => after? lexing (c :: rest)
    | .backslash => after? lexing rest
  | _ :: rest => after? lexing rest

/-- A literal with nothing behind its closing quote. -/
def ClosesAtEnd (lexing : Lexing) (literal : List Char) : Prop :=
  ∃ inner, literal = '\'' :: inner ∧ after? lexing inner = some []

/-- A text in which every maximal run of single quotes is of even length. -/
def EvenRuns (text : List Char) : Prop :=
  ∀ front n rear, text = front ++ (List.replicate n '\'' ++ rear) →
    front.getLast? ≠ some '\'' → rear.head? ≠ some '\'' → n % 2 = 0

/-- A text without a quote behind a backslash. -/
def Unslashed (text : List Char) : Prop :=
  ¬ ['\\', '\''] <:+: text

/-- A literal that keeps its text inside: quotes come in even runs, and none of them, the closing
one included, stands behind a backslash. -/
def Contained (literal : List Char) : Prop :=
  ∃ body, literal = '\'' :: (body ++ ['\'']) ∧ EvenRuns body ∧ Unslashed (body ++ ['\''])

/-- The text that a doubled text stands for. -/
def undoubled (mark : Char) : List Char → List Char
  | [] => []
  | [c] => [c]
  | c :: d :: rest =>
    if c = mark ∧ d = mark then c :: undoubled mark rest else c :: undoubled mark (d :: rest)

variable {c : Char} {text a b : List Char} {lexing : Lexing}

theorem after?_quote (apart : text.head? ≠ some '\'') :
    after? lexing ('\'' :: text) = some text := by
  cases text with
  | nil => rfl
  | cons c text =>
    rw [after?]
    rintro rest same
    rw [same] at apart
    exact apart rfl

theorem after?_plain (quote : c ≠ '\'') (backslash : c ≠ '\\') :
    after? lexing (c :: text) = after? lexing text := by
  rw [after?.eq_def]
  split <;> simp_all

theorem after?_standard (quote : c ≠ '\'') :
    after? .standard (c :: text) = after? .standard text := by
  by_cases backslash : c = '\\'
  · subst backslash
    cases text <;> rfl
  · exact after?_plain quote backslash

theorem apart_of_isClean (plain : Substitute.isClean c = true) : c ≠ '\\' ∧ c ≠ '\'' := by
  constructor <;> rintro rfl <;> cases plain

theorem after?_clean (clean : Substitute.Clean a) (text : List Char) :
    after? lexing (a ++ text) = after? lexing text := by
  induction a with
  | nil => rfl
  | cons c a ih =>
    obtain ⟨plain, rest⟩ := Substitute.clean_cons.mp clean
    have apart := apart_of_isClean plain
    rw [List.cons_append, after?_plain apart.2 apart.1, ih rest]

theorem undoubled_cons {mark : Char} (apart : c ≠ mark) (text : List Char) :
    undoubled mark (c :: text) = c :: undoubled mark text := by
  cases text with
  | nil => rfl
  | cons d text => rw [undoubled, if_neg fun same => apart same.1]

theorem undoubled_doubled (mark : Char) (text : List Char) :
    undoubled mark (Text.doubled mark text) = text := by
  induction text with
  | nil => rfl
  | cons c text ih =>
    rw [Text.doubled]
    split
    · next same => rw [undoubled, if_pos ⟨same, same⟩, ih]
    · next apart => rw [undoubled_cons apart, ih]

theorem doubled_inj {mark : Char} : Text.doubled mark a = Text.doubled mark b ↔ a = b := by
  constructor
  · intro same
    rw [← undoubled_doubled mark a, same, undoubled_doubled]
  · exact congrArg (Text.doubled mark)

/-! ### Quotes and backslashes -/

/-- Every quote stands in a pair, read from the left. -/
inductive Paired : List Char → Prop
  | nil : Paired []
  | pair {text : List Char} : Paired text → Paired ('\'' :: '\'' :: text)
  | other {c : Char} {text : List Char} : c ≠ '\'' → Paired text → Paired (c :: text)

theorem Paired.append (ha : Paired a) (hb : Paired b) : Paired (a ++ b) := by
  induction ha with
  | nil => exact hb
  | pair _ ih => exact ih.pair
  | other apart _ ih => exact ih.other apart

theorem paired_doubled (text : List Char) : Paired (Text.doubled '\'' text) := by
  induction text with
  | nil => exact .nil
  | cons c text ih =>
    by_cases quote : c = '\''
    · subst quote
      exact ih.pair
    · rw [Text.doubled_cons_of_ne quote]
      exact ih.other quote

theorem getLast?_cons_ne {d : Char} (h : (c :: a).getLast? ≠ some d) : a.getLast? ≠ some d := by
  intro last
  rw [List.getLast?_cons, last] at h
  exact h rfl

theorem Paired.evenRuns (h : Paired text) : EvenRuns text := by
  induction h with
  | nil =>
    intro front n rear same _ _
    have none := List.append_eq_nil_iff.mp (List.append_eq_nil_iff.mp same.symm).2
    obtain rfl : n = 0 := by simpa using none.1
    rfl
  | @pair text _ ih =>
    intro front n rear same before behind
    match front, n with
    | [], 0 => rfl
    | [], 1 =>
      obtain rfl : '\'' :: text = rear := (List.cons.inj same).2
      exact absurd rfl behind
    | [], n + 2 =>
      have rest : text = [] ++ (List.replicate n '\'' ++ rear) :=
        (List.cons.inj (List.cons.inj same).2).2
      have even := ih [] n rear rest (by simp) behind
      omega
    | [d], n =>
      obtain rfl := (List.cons.inj same).1
      exact absurd rfl before
    | d :: e :: front, n =>
      have tail := List.cons.inj (List.cons.inj same).2
      refine ih front n rear tail.2 ?_ behind
      exact getLast?_cons_ne (getLast?_cons_ne before)
  | @other c text apart _ ih =>
    intro front n rear same before behind
    match front, n with
    | [], 0 => rfl
    | [], n + 1 => exact absurd (List.cons.inj same).1 apart
    | d :: front, n =>
      exact ih front n rear (List.cons.inj same).2 (getLast?_cons_ne before) behind

theorem EvenRuns.of_pair (h : EvenRuns ('\'' :: '\'' :: text)) : EvenRuns text := by
  intro front n rear same before behind
  cases front with
  | nil =>
    have even := h [] (n + 2) rear (by rw [same]; rfl) (by simp) behind
    omega
  | cons d front =>
    refine h ('\'' :: '\'' :: d :: front) n rear (by rw [same]; rfl) ?_ behind
    rwa [List.getLast?_cons_cons, List.getLast?_cons_cons]

theorem EvenRuns.of_other (quote : c ≠ '\'') (h : EvenRuns (c :: text)) : EvenRuns text := by
  intro front n rear same before behind
  refine h (c :: front) n rear (by rw [same]; rfl) ?_ behind
  cases front with
  | nil => simpa using quote
  | cons d front => rwa [List.getLast?_cons_cons]

theorem EvenRuns.paired {text : List Char} (h : EvenRuns text) : Paired text := by
  match text with
  | [] => exact .nil
  | c :: text =>
    by_cases quote : c = '\''
    · subst quote
      match text with
      | [] => exact absurd (h [] 1 [] rfl (by simp) (by simp)) (by decide)
      | d :: text =>
        by_cases second : d = '\''
        · subst second
          exact h.of_pair.paired.pair
        · exact absurd (h [] 1 (d :: text) rfl (by simp) (by simpa using second)) (by decide)
    · exact (h.of_other quote).paired.other quote

theorem unslashed_cons :
    Unslashed (c :: text) ↔ (c = '\\' → text.head? ≠ some '\'') ∧ Unslashed text := by
  have first : ['\\', '\''] <+: c :: text ↔ c = '\\' ∧ text.head? = some '\'' := by
    cases text with
    | nil => simp
    | cons d text => simp [eq_comm]
  rw [Unslashed, List.infix_cons_iff, not_or, first, not_and]
  rfl

theorem unslashed_nil : Unslashed [] := by
  simp [Unslashed]

theorem unslashed_plain (backslash : c ≠ '\\') : Unslashed (c :: text) ↔ Unslashed text := by
  simp [unslashed_cons, backslash]

/-- A text is parted at a character that is neither a backslash nor a quote. -/
theorem unslashed_append (backslash : c ≠ '\\') (quote : c ≠ '\'') :
    Unslashed (a ++ c :: b) ↔ Unslashed a ∧ Unslashed b := by
  induction a with
  | nil => simp [unslashed_plain backslash, unslashed_nil]
  | cons d a ih =>
    have head : (a ++ c :: b).head? ≠ some '\'' ↔ a.head? ≠ some '\'' := by
      cases a with
      | nil => simp [quote]
      | cons e a => simp
    rw [List.cons_append, unslashed_cons, unslashed_cons, ih, head, and_assoc]

theorem unslashed_clean_append (clean : Substitute.Clean a) :
    Unslashed (a ++ b) ↔ Unslashed b := by
  induction a with
  | nil => rfl
  | cons c a ih =>
    obtain ⟨plain, rest⟩ := Substitute.clean_cons.mp clean
    rw [List.cons_append, unslashed_plain (apart_of_isClean plain).1, ih rest]

theorem unslashed_doubled : Unslashed (Text.doubled '\'' text) ↔ Unslashed text := by
  induction text with
  | nil => rfl
  | cons c text ih =>
    rw [Text.doubled]
    split
    · next quote => simp [unslashed_plain, quote, ih]
    · rw [unslashed_cons, unslashed_cons, Text.head_doubled, ih]

/-! ### Parts of a literal -/

/-- A text with its quotes in pairs, none of them behind a backslash. -/
structure Guarded (text : List Char) : Prop where
  paired : Paired text
  unslashed : Unslashed text

/-- A part of a literal that keeps its quotes in pairs and does not touch what comes behind it. -/
structure Sealed (text : List Char) : Prop where
  paired : Paired text
  unslashed : ∀ {rest}, Unslashed rest → Unslashed (text ++ rest)

theorem sealed_nil : Sealed [] :=
  ⟨.nil, id⟩

theorem Sealed.append (ha : Sealed a) (hb : Sealed b) : Sealed (a ++ b) := by
  refine ⟨ha.paired.append hb.paired, fun h => ?_⟩
  rw [List.append_assoc]
  exact ha.unslashed (hb.unslashed h)

/-- A clean character seals the text before it. -/
theorem Guarded.concat (h : Guarded a) (plain : Substitute.isClean c = true) :
    Sealed (a ++ [c]) := by
  have apart := apart_of_isClean plain
  refine ⟨h.paired.append (.other apart.2 .nil), fun rest => ?_⟩
  rw [List.append_assoc]
  exact (unslashed_append apart.1 apart.2).mpr ⟨h.unslashed, rest⟩

theorem sealed_clean (clean : Substitute.Clean a) : Sealed a := by
  induction a with
  | nil => exact sealed_nil
  | cons c a ih =>
    obtain ⟨plain, rest⟩ := Substitute.clean_cons.mp clean
    have first : Sealed ([] ++ [c]) := Guarded.concat ⟨.nil, unslashed_nil⟩ plain
    exact first.append (ih rest)

theorem Guarded.between {opening closing : Char} (h : Guarded a)
    (first : Substitute.isClean opening = true) (last : Substitute.isClean closing = true) :
    Sealed (opening :: (a ++ [closing])) :=
  (sealed_clean (Substitute.clean_cons.mpr ⟨first, Substitute.clean_nil⟩)).append (h.concat last)

theorem sealed_flatMap {α : Type} {f : α → List Char} {items : List α}
    (h : ∀ item ∈ items, Sealed (f item)) : Sealed (items.flatMap f) := by
  induction items with
  | nil => exact sealed_nil
  | cons item items ih =>
    obtain ⟨first, rest⟩ := List.forall_mem_cons.mp h
    exact first.append (ih rest)

theorem Sealed.contained (h : Sealed text) : Contained ('\'' :: (text ++ ['\''])) :=
  ⟨text, rfl, h.paired.evenRuns, h.unslashed ((unslashed_plain (by decide)).mpr unslashed_nil)⟩

theorem Paired.after?_standard (h : Paired text) (apart : b.head? ≠ some '\'') :
    after? .standard (text ++ '\'' :: b) = some b := by
  induction h with
  | nil => exact after?_quote apart
  | pair _ ih => exact ih
  | other quote _ ih => rw [List.cons_append, StringLiteral.after?_standard quote, ih]

/-- A backslash takes no quote along, so what it takes along changes nothing. -/
theorem Paired.after?_backslash {text : List Char} (h : Paired text)
    (unslashed : Unslashed (text ++ ['\''])) (apart : b.head? ≠ some '\'') :
    after? .backslash (text ++ '\'' :: b) = some b := by
  cases h with
  | nil => exact after?_quote apart
  | pair h =>
    have rest := (unslashed_cons.mp (unslashed_cons.mp unslashed).2).2
    exact h.after?_backslash rest apart
  | @other c text quote h =>
    obtain ⟨before, rest⟩ := unslashed_cons.mp unslashed
    by_cases backslash : c = '\\'
    · subst backslash
      cases h with
      | nil => exact absurd rfl (before rfl)
      | pair h => exact absurd rfl (before rfl)
      | other _ h => exact h.after?_backslash (unslashed_cons.mp rest).2 apart
    · rw [List.cons_append, after?_plain quote backslash]
      exact h.after?_backslash rest apart

theorem Contained.closesAtEnd {literal : List Char} (h : Contained literal) (lexing : Lexing) :
    ClosesAtEnd lexing literal := by
  obtain ⟨body, rfl, even, unslashed⟩ := h
  refine ⟨body ++ ['\''], rfl, ?_⟩
  cases lexing with
  | standard => exact even.paired.after?_standard (by simp)
  | backslash => exact even.paired.after?_backslash unslashed (by simp)

/-- The text of a literal that closes at its end, with one quote for each two inside. -/
def text? : List Char → Option (List Char)
  | '\'' :: inner =>
    if after? .standard inner = some [] then some (undoubled '\'' inner.dropLast) else none
  | _ => none

theorem Paired.doubled_undoubled (h : Paired text) :
    Text.doubled '\'' (undoubled '\'' text) = text := by
  induction h with
  | nil => rfl
  | pair _ ih => rw [undoubled, if_pos ⟨rfl, rfl⟩, Text.doubled, if_pos rfl, ih]
  | other quote _ ih => rw [undoubled_cons quote, Text.doubled_cons_of_ne quote, ih]

theorem exists_paired {inner : List Char} (closes : after? .standard inner = some []) :
    ∃ body, Paired body ∧ inner = body ++ ['\''] := by
  match inner with
  | [] => cases closes
  | c :: inner =>
    by_cases quote : c = '\''
    · subst quote
      match inner with
      | [] => exact ⟨[], .nil, rfl⟩
      | d :: inner =>
        by_cases second : d = '\''
        · subst second
          have rest : after? .standard inner = some [] := closes
          obtain ⟨body, paired, rfl⟩ := exists_paired rest
          exact ⟨_, paired.pair, rfl⟩
        · rw [after?_quote (by simpa using second)] at closes
          cases closes
    · rw [after?_standard quote] at closes
      obtain ⟨body, paired, rfl⟩ := exists_paired closes
      exact ⟨c :: body, paired.other quote, rfl⟩

/-- A literal is read as a text exactly if it is that text with every quote written twice. -/
theorem text?_eq_some_iff {literal : List Char} :
    text? literal = some text ↔ literal = '\'' :: (Text.doubled '\'' text ++ ['\'']) := by
  constructor
  · intro read
    unfold text? at read
    split at read
    · split at read
      · next closes =>
        obtain ⟨body, paired, rfl⟩ := exists_paired closes
        obtain rfl := Option.some.inj read
        rw [List.dropLast_concat, paired.doubled_undoubled]
      · cases read
    · cases read
  · rintro rfl
    have closes := (paired_doubled text).after?_standard (b := []) (by simp)
    rw [text?, if_pos closes, List.dropLast_concat, undoubled_doubled]

end SqlCompiler.StringLiteral
