import SqlCompiler.Engine.Selector
import SqlCompiler.Proofs.AliasSeparators
/-!
# Quoted names are read back

A written name is a list of parts with dots between them, each between quotes or a bare star, and
perhaps one more part behind the word `as`. `QuoteMarks.name?` reads such a text as an engine does:
a closing quote ends a part unless it is doubled. Every name is read back as its segments and its
alias, with the prefix in front of the table.
-/

namespace SqlCompiler

namespace QuoteMarks

/-- The part that a closing quote ends, from behind its opening quote, and what follows. -/
def quoted? (closing : Char) : List Char → Option (List Char × List Char)
  | [] => none
  | [c] => if c = closing then some ([], []) else none
  | c :: d :: rest =>
    if c = closing then
      if d = closing then (quoted? closing rest).map fun (part, rest) => (c :: part, rest)
      else some ([], d :: rest)
    else (quoted? closing (d :: rest)).map fun (part, rest) => (c :: part, rest)

/-- The first part of a text, and what follows. -/
def part? (q : QuoteMarks) : List Char → Option (List Char × List Char)
  | [] => none
  | c :: rest =>
    if c = '*' then some (['*'], rest)
    else if c = q.opening then quoted? q.closing rest
    else none

theorem quoted?_length {closing : Char} {text part rest : List Char}
    (read : quoted? closing text = some (part, rest)) : rest.length < text.length := by
  fun_induction quoted? closing text generalizing part with
  | case1 => cases read
  | case2 => simp_all
  | case3 => cases read
  | case4 rest' ih =>
    obtain ⟨⟨inner, behind⟩, found, same⟩ := Option.map_eq_some_iff.mp read
    obtain ⟨-, rfl⟩ := Prod.mk.inj same
    have shorter := ih found
    simp only [List.length_cons]
    omega
  | case5 d rest' _ =>
    obtain ⟨-, rfl⟩ := Prod.mk.inj (Option.some.inj read)
    exact Nat.lt_succ_self _
  | case6 c d rest' _ ih =>
    obtain ⟨⟨inner, behind⟩, found, same⟩ := Option.map_eq_some_iff.mp read
    obtain ⟨-, rfl⟩ := Prod.mk.inj same
    exact Nat.lt_succ_of_lt (ih found)

theorem part?_length {q : QuoteMarks} {text part rest : List Char}
    (read : q.part? text = some (part, rest)) : rest.length < text.length := by
  unfold part? at read
  split at read
  · cases read
  · split at read
    · obtain ⟨-, rfl⟩ := Prod.mk.inj (Option.some.inj read)
      exact Nat.lt_succ_self _
    · split at read
      · exact Nat.lt_succ_of_lt (quoted?_length read)
      · cases read

/-- The parts of a text up to the first that no dot follows, and what follows that one. -/
def parts? (q : QuoteMarks) (text : List Char) : Option (List (List Char) × List Char) :=
  match _ : q.part? text with
  | some (part, '.' :: rest) => (q.parts? rest).map fun (parts, rest) => (part :: parts, rest)
  | some (part, rest) => some ([part], rest)
  | none => none
termination_by text.length
decreasing_by
  have shorter := part?_length ‹q.part? text = _›
  simp only [List.length_cons] at shorter
  omega

/-- The parts and the alias of a text that is a written name and nothing else. -/
def name? (q : QuoteMarks) (text : List Char) : Option (List (List Char) × Option (List Char)) :=
  match q.parts? text with
  | none => none
  | some (parts, []) => some (parts, none)
  | some (parts, rest) =>
    match (Text.dropLead? " as ".toList rest).bind q.part? with
    | some (aliasName, []) => some (parts, some aliasName)
    | _ => none

variable {q : QuoteMarks} {text rest part : List Char} {parts : List (List Char)}

theorem quoted?_doubled {closing : Char} (part : List Char) (apart : rest.head? ≠ some closing) :
    quoted? closing (Text.doubled closing part ++ closing :: rest) = some (part, rest) := by
  have other {c : Char} (different : c ≠ closing) (text : List Char) :
      quoted? closing (c :: text)
        = (quoted? closing text).map fun (part, rest) => (c :: part, rest) := by
    cases text <;> simp [quoted?, different]
  induction part with
  | nil =>
    cases rest with
    | nil => simp [Text.doubled, quoted?]
    | cons d rest =>
      have different : d ≠ closing := by simpa using apart
      simp [Text.doubled, quoted?, different]
  | cons c part ih =>
    by_cases same : c = closing
    · rw [Text.doubled, if_pos same, List.cons_append, List.cons_append, quoted?, if_pos same,
        if_pos same, ih]
      rfl
    · rw [Text.doubled_cons_of_ne same, List.cons_append, other same, ih]
      rfl

/-- The quotes of a dialect are no stars, dots or blanks. -/
structure Proper (q : QuoteMarks) : Prop where
  opening : q.opening ≠ '*'
  dot : q.closing ≠ '.'
  blank : q.closing ≠ ' '

theorem proper (d : Dialect) : d.quoteMarks.Proper := by
  cases d <;> exact ⟨by decide, by decide, by decide⟩

theorem part?_quote (proper : q.Proper) (part : List Char) (apart : rest.head? ≠ some q.closing) :
    q.part? (q.quote part ++ rest) = some (part, rest) := by
  rw [quote]
  split
  · next star => rw [star, List.singleton_append, part?, if_pos rfl]
  · rw [List.cons_append, List.append_assoc, List.singleton_append, part?, if_neg proper.opening,
      if_pos rfl, quoted?_doubled part apart]

theorem parts?_of_part?_eq_none (none : q.part? text = none) : q.parts? text = .none := by
  rw [parts?, none]

theorem parts?_dotted (proper : q.Proper) (filled : parts ≠ [])
    (apart : rest.head? ≠ some q.closing) (ends : rest.head? ≠ some '.') :
    q.parts? (Name.dotted (parts.map q.quote) ++ rest) = some (parts, rest) := by
  induction parts with
  | nil => exact absurd rfl filled
  | cons part parts ih =>
    cases parts with
    | nil =>
      have read : q.part? (Name.dotted [q.quote part] ++ rest) = some (part, rest) := by
        simpa [Name.dotted] using part?_quote proper part apart
      rw [List.map_singleton, parts?, read]
      split
      · next behind same =>
        obtain ⟨-, rfl⟩ := Prod.mk.inj (Option.some.inj same)
        exact absurd rfl ends
      · next same =>
        obtain ⟨rfl, rfl⟩ := Prod.mk.inj (Option.some.inj same)
        rfl
      · next same => cases same
    | cons second parts =>
      have dot : ('.' :: (Name.dotted ((second :: parts).map q.quote) ++ rest)).head?
          ≠ some q.closing := by
        simpa using proper.dot.symm
      have read : q.part? (Name.dotted ((part :: second :: parts).map q.quote) ++ rest)
          = some (part, '.' :: (Name.dotted ((second :: parts).map q.quote) ++ rest)) := by
        have first := part?_quote proper part dot
        simpa [Name.dotted, List.intercalate_cons_cons] using first
      rw [parts?, read]
      simp only [ih (List.cons_ne_nil _ _), Option.map_some]

theorem parts?_of_name? (read : q.name? text = some (parts, none)) :
    q.parts? text = some (parts, []) := by
  unfold name? at read
  split at read
  · cases read
  · next found =>
    obtain ⟨rfl, -⟩ := Prod.mk.inj (Option.some.inj read)
    exact found
  · split at read <;> simp at read

theorem name?_dotted (proper : q.Proper) (filled : parts ≠ []) :
    q.name? (Name.dotted (parts.map q.quote)) = some (parts, none) := by
  have read : q.parts? (Name.dotted (parts.map q.quote) ++ []) = some (parts, []) :=
    parts?_dotted proper filled (by simp) (by simp)
  rw [List.append_nil] at read
  rw [name?, read]

theorem name?_aliased (proper : q.Proper) (filled : parts ≠ []) (aliasName : List Char) :
    q.name? (Name.aliased (Name.dotted (parts.map q.quote)) (q.quote aliasName))
      = some (parts, some aliasName) := by
  have blank : (" as ".toList ++ q.quote aliasName).head? ≠ some q.closing := by
    simpa using proper.blank.symm
  have read := parts?_dotted proper filled blank (by simp)
  have behind : q.part? (q.quote aliasName ++ []) = some (aliasName, []) :=
    part?_quote proper aliasName (by simp)
  rw [List.append_nil] at behind
  rw [Name.aliased, List.append_assoc, name?, read]
  simp [Text.dropLead?, behind]

end QuoteMarks

/-! ### Prefixed names -/

namespace Name

/-- The segments of a table with a prefix, which the table gets and no schema does. -/
def prefixLast (p : List Char) : List (List Char) → List (List Char)
  | [] => []
  | [table] => [p ++ table]
  | schema :: rest => schema :: prefixLast p rest

/-- The segments of a column with a prefix, which the table in front of it gets. -/
def prefixFirst (p : List Char) : List (List Char) → List (List Char)
  | [] => []
  | [column] => [column]
  | table :: rest => (p ++ table) :: rest

variable {p : List Char} {segments : List (List Char)}

theorem prefixLast_ne_nil (filled : segments ≠ []) : prefixLast p segments ≠ [] := by
  fun_cases prefixLast p segments <;> simp_all

theorem prefixFirst_ne_nil (filled : segments ≠ []) : prefixFirst p segments ≠ [] := by
  fun_cases prefixFirst p segments <;> simp_all

end Name

namespace Engine

variable {e : Engine} {name text : List Char} {segments : List (List Char)}
  {aliasName : Option (List Char)}

theorem tableParts_eq (segments : List (List Char)) : e.tableParts segments
    = (Name.prefixLast e.settings.tablePrefix.toList segments).map e.quote := by
  induction segments with
  | nil => rfl
  | cons schema rest ih =>
    cases rest with
    | nil => rfl
    | cons second rest => exact congrArg (e.quote schema :: ·) ih

theorem columnParts_eq (segments : List (List Char)) : e.columnParts segments
    = (Name.prefixFirst e.settings.tablePrefix.toList segments).map e.quote := by
  match segments with
  | [] => rfl
  | [column] => rfl
  | table :: second :: rest => rfl

theorem plainTable_eq (spelt : Name.Segments text segments) : e.plainTable text
    = Name.dotted ((Name.prefixLast e.settings.tablePrefix.toList segments).map e.quote) := by
  rw [plainTable, Name.segments_iff.mp spelt, tableParts_eq]

theorem plainColumn_eq (spelt : Name.Segments text segments) : e.plainColumn text
    = Name.dotted ((Name.prefixFirst e.settings.tablePrefix.toList segments).map e.quote) := by
  rw [plainColumn, Name.segments_iff.mp spelt, columnParts_eq]

theorem wrapTable_read {name : String} (spelt : Name.Spells name.toList segments aliasName) :
    e.dialect.quoteMarks.name? (e.wrapTable name).toList
      = some (Name.prefixLast e.settings.tablePrefix.toList segments,
          aliasName.map (e.settings.tablePrefix.toList ++ ·)) := by
  have marks := QuoteMarks.proper e.dialect
  rw [wrapTable, String.toList_ofList]
  cases spelt with
  | bare unparted spelt =>
    rw [Name.splitAlias?_eq_none_iff.mpr unparted]
    dsimp only
    rw [plainTable_eq spelt]
    exact QuoteMarks.name?_dotted marks (Name.prefixLast_ne_nil spelt.filled)
  | aliased aliased spelt =>
    rw [Name.splitAlias?_eq_some_iff.mpr aliased]
    dsimp only
    rw [plainTable_eq spelt]
    exact QuoteMarks.name?_aliased marks (Name.prefixLast_ne_nil spelt.filled) _

theorem wrapUnaliased_eq (arrowless : Text.hasArrow text = false) :
    e.wrapUnaliased text = .ok (String.ofList (e.plainColumn text)) := by
  rw [wrapUnaliased, arrowless]
  rfl

theorem wrapAliased_read {name : String} (spelt : Name.Spells name.toList segments aliasName)
    (arrowless : Text.hasArrow name.toList = false) (prefixed : Bool) :
    ∃ text, e.wrapAliased name prefixed = .ok text ∧
      e.dialect.quoteMarks.name? text.toList
        = some (Name.prefixFirst e.settings.tablePrefix.toList segments,
            aliasName.map fun own => if prefixed then e.settings.tablePrefix.toList ++ own else own)
    := by
  have marks := QuoteMarks.proper e.dialect
  rw [wrapAliased]
  cases spelt with
  | bare unparted spelt =>
    rw [Name.splitAlias?_eq_none_iff.mpr unparted]
    dsimp only
    rw [wrapUnaliased_eq arrowless, plainColumn_eq spelt]
    refine ⟨_, rfl, ?_⟩
    rw [String.toList_ofList]
    exact QuoteMarks.name?_dotted marks (Name.prefixFirst_ne_nil spelt.filled)
  | @aliased target aliasName _ aliased spelt =>
    have cut := Name.splitAlias?_eq_some_iff.mpr aliased
    have inner := Text.hasArrow_of_infix (Name.splitAlias?_prefix cut).isInfix arrowless
    have same : (if prefixed then e.quoteTable aliasName else e.quote aliasName) = e.quote
        (if prefixed then e.settings.tablePrefix.toList ++ aliasName else aliasName) := by
      cases prefixed <;> rfl
    rw [cut]
    dsimp only
    rw [wrapUnaliased_eq inner, plainColumn_eq spelt, same]
    refine ⟨_, rfl, ?_⟩
    rw [String.toList_ofList, String.toList_ofList]
    exact QuoteMarks.name?_aliased marks (Name.prefixFirst_ne_nil spelt.filled) _

/-- Every name is written, and what is written is read back as the segments and the alias of the
name, with the prefix in front of the table. -/
theorem names_readBack (e : Engine) (name : String) :
    (∃ segments aliasName, Name.Spells name.toList segments aliasName) ∧
    ∀ segments aliasName, Name.Spells name.toList segments aliasName →
      e.dialect.quoteMarks.name? (e.wrapTable name).toList
        = some (Name.prefixLast e.settings.tablePrefix.toList segments,
            aliasName.map (e.settings.tablePrefix.toList ++ ·)) ∧
      (¬ ['-', '>'] <:+: name.toList →
        (∃ text, e.wrap name = .ok text ∧ e.dialect.quoteMarks.name? text.toList
          = some (Name.prefixFirst e.settings.tablePrefix.toList segments, aliasName)) ∧
        ∀ prefixed, ∃ text, e.wrapAliased name prefixed = .ok text ∧
          e.dialect.quoteMarks.name? text.toList
            = some (Name.prefixFirst e.settings.tablePrefix.toList segments,
                aliasName.map fun own =>
                  if prefixed then e.settings.tablePrefix.toList ++ own else own)) := by
  refine ⟨Name.exists_spells name.toList, fun segments aliasName spelt =>
    ⟨wrapTable_read spelt, fun arrowless => ?_⟩⟩
  have plain : Text.hasArrow name.toList = false :=
    Bool.eq_false_iff.mpr (mt Text.hasArrow_iff.mp arrowless)
  refine ⟨?_, wrapAliased_read spelt plain⟩
  obtain ⟨text, written, read⟩ := wrapAliased_read spelt plain false (e := e)
  exact ⟨text, written, by simpa using read⟩

/-- A table, a schema and an alias with closing brackets in them, under a prefix with another. -/
theorem bracketed_readBack :
    Name.Spells "a]b.*.c[  aS x] as y".toList ["a]b".toList, "*".toList, "c[".toList]
        (some "x] as y".toList) ∧
      ¬ ['-', '>'] <:+: "a]b.*.c[  aS x] as y".toList ∧
      Dialect.sqlserver.quoteMarks.name?
          (wrapTable ⟨.sqlserver, { tablePrefix := "p]" }⟩ "a]b.*.c[  aS x] as y").toList
        = some (["a]b".toList, "*".toList, "p]c[".toList], some "p]x] as y".toList) ∧
      ∃ text, wrap ⟨.sqlserver, { tablePrefix := "p]" }⟩ "a]b.*.c[  aS x] as y" = .ok text ∧
        Dialect.sqlserver.quoteMarks.name? text.toList
          = some (["p]a]b".toList, "*".toList, "c[".toList], some "x] as y".toList) := by
  have cut : Name.splitAlias? "a]b.*.c[  aS x] as y".toList
      = some ("a]b.*.c[".toList, "x] as y".toList) := by decide
  have spelt : Name.Spells "a]b.*.c[  aS x] as y".toList ["a]b".toList, "*".toList, "c[".toList]
      (some "x] as y".toList) :=
    .aliased (Name.splitAlias?_eq_some_iff.mp cut) (Name.segments_iff.mpr (by decide))
  have arrowless : ¬ ['-', '>'] <:+: "a]b.*.c[  aS x] as y".toList :=
    mt Text.hasArrow_iff.mpr (by decide)
  have read := (names_readBack ⟨.sqlserver, { tablePrefix := "p]" }⟩ "a]b.*.c[  aS x] as y").2
    _ _ spelt
  exact ⟨spelt, arrowless, read.1, (read.2 arrowless).1⟩

end Engine

end SqlCompiler
