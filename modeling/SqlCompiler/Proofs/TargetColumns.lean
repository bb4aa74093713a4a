import SqlCompiler.Proofs.SelectorAgreement
import SqlCompiler.Proofs.TargetNames
/-!
# Columns of a target

A write that picks its rows by their identity, or merges rows, puts the unquoted alias or name of
its target in front of a column and has the whole quoted. What comes out is read back and compared
with the column behind the target itself: it is another one if the name has a separator, an arrow or
a dot, save for the dots of a name without alias under no prefix.
-/

namespace SqlCompiler

namespace Name

variable {p name a b : List Char} {segments columns : List (List Char)}
  {aliasName : Option (List Char)}

/-- A name that consists of segments and nothing else. -/
structure Plain (column : List Char) (columns : List (List Char)) : Prop where
  spelt : Segments column columns
  unparted : Unparted column
  arrowless : ¬ ['-', '>'] <:+: column

theorem Separator.undotted {separator : List Char} (h : Separator separator) :
    '.' ∉ separator := by
  obtain @⟨before, behind, a, s, -, blanks, first, second, -, others⟩ := h
  intro member
  rcases List.mem_append.mp member with inside | inside
  · exact absurd (blanks _ inside) (by decide)
  · rcases List.mem_cons.mp inside with rfl | inside
    · simp at first
    · rcases List.mem_cons.mp inside with rfl | inside
      · simp at second
      · exact absurd (others _ inside) (by decide)

theorem Aliased.unparted {target called : List Char} (h : Aliased name target called) :
    Unparted target := by
  rintro text separator ⟨before, behind, rfl⟩
  obtain ⟨last, -, rfl⟩ := h.parted
  have early := h.first before text (behind ++ (last ++ called)) separator (by simp)
  have solid := List.length_pos_iff.mpr separator.ne_nil
  simp only [List.length_append] at early
  omega

theorem unparted_dot_iff : Unparted (a ++ '.' :: b) ↔ Unparted a ∧ Unparted b := by
  constructor
  · intro whole
    exact ⟨fun text separator inside => whole text separator
        ((Text.infix_append_cons_iff separator.undotted).mpr (.inl inside)),
      fun text separator inside => whole text separator
        ((Text.infix_append_cons_iff separator.undotted).mpr (.inr inside))⟩
  · rintro ⟨left, right⟩ text separator inside
    rcases (Text.infix_append_cons_iff separator.undotted).mp inside with inside | inside
    · exact left text separator inside
    · exact right text separator inside

theorem dotted_append {parts others : List (List Char)} (filled : parts ≠ [])
    (more : others ≠ []) : dotted (parts ++ others) = dotted parts ++ '.' :: dotted others := by
  induction parts with
  | nil => exact absurd rfl filled
  | cons first parts ih =>
    cases parts with
    | nil =>
      obtain ⟨other, others, rfl⟩ := List.exists_cons_of_ne_nil more
      simp [dotted, List.intercalate_cons_cons]
    | cons second parts =>
      have behind := ih (List.cons_ne_nil _ _)
      simp only [dotted, List.cons_append, List.intercalate_cons_cons] at behind ⊢
      rw [behind]
      simp

theorem Segments.append {others : List (List Char)} (spelt : Segments a segments)
    (behind : Segments b others) : Segments (a ++ '.' :: b) (segments ++ others) where
  filled := by simp [spelt.filled]
  undotted := List.forall_mem_append.mpr ⟨spelt.undotted, behind.undotted⟩
  dotted := by
    rw [← spelt.dotted, ← behind.dotted]
    exact dotted_append spelt.filled behind.filled

theorem Segments.eq_singleton (spelt : Segments a segments) (undotted : '.' ∉ a) :
    segments = [a] := by
  have own : Segments a [a] := ⟨by simp, by simpa using undotted, by simp⟩
  rw [← segments_iff.mp spelt, segments_iff.mp own]

theorem prefixLast_nil (segments : List (List Char)) : prefixLast [] segments = segments := by
  fun_induction prefixLast [] segments with
  | case1 => rfl
  | case2 table => rfl
  | case3 schema rest several ih => rw [ih]

/-- The parts of a target as it is to be called. -/
def ownParts (p : List Char) (segments : List (List Char)) :
    Option (List Char) → List (List Char)
  | some aliasName => [p ++ aliasName]
  | none => prefixLast p segments

/-- In front of a column the name of a target is quoted as it is in the target: it has no arrow and
no separator, and no dot unless the target has neither alias nor prefix. -/
structure Requoted (p name : List Char) (aliasName : Option (List Char)) : Prop where
  arrowless : ¬ ['-', '>'] <:+: aliasName.getD name
  unparted : Unparted (aliasName.getD name)
  single : '.' ∉ aliasName.getD name ∨ aliasName = none ∧ p = []

theorem ownParts_ne_nil (spelt : Spells name segments aliasName) :
    ownParts p segments aliasName ≠ [] := by
  cases spelt with
  | bare unparted spelt => exact prefixLast_ne_nil spelt.filled
  | aliased => exact List.cons_ne_nil _ _

/-- The parts of a column behind an unparted name are those of the target just when the name is a
single segment or neither an alias nor prefixed. -/
theorem prefixFirst_append_iff (spelt : Spells name segments aliasName) (more : columns ≠ [])
    {inner : List (List Char)} (named : Segments (aliasName.getD name) inner) :
    prefixFirst p (inner ++ columns) = ownParts p segments aliasName ++ columns ↔
      '.' ∉ aliasName.getD name ∨ aliasName = none ∧ p = [] := by
  obtain ⟨column, columns, rfl⟩ := List.exists_cons_of_ne_nil more
  have several {first second : List Char} {rest : List (List Char)}
      (shape : inner = first :: second :: rest) : '.' ∈ aliasName.getD name := by
    rw [← named.dotted, shape, List.intercalate_cons_cons]
    simp
  cases inner with
  | nil => exact absurd rfl named.filled
  | cons first rest =>
    cases rest with
    | nil =>
      have whole : first = aliasName.getD name := by
        rw [← named.dotted, List.intercalate_singleton]
      have undotted : '.' ∉ aliasName.getD name :=
        whole ▸ named.undotted first List.mem_cons_self
      refine iff_of_true ?_ (.inl undotted)
      cases spelt with
      | bare unparted spelt =>
        rw [spelt.eq_singleton undotted, whole]
        rfl
      | aliased => rw [whole]; rfl
    | cons second rest =>
      have dotted := several rfl
      cases spelt with
      | bare unparted spelt =>
        obtain rfl : first :: second :: rest = segments :=
          (segments_iff.mp named).symm.trans (segments_iff.mp spelt)
        have front : prefixFirst p (first :: second :: rest ++ column :: columns)
            = (p ++ first) :: (second :: rest ++ column :: columns) := rfl
        have own : ownParts p (first :: second :: rest) none
            = first :: prefixLast p (second :: rest) := rfl
        rw [front, own]
        constructor
        · intro same
          have unprefixed : p ++ first = first := (List.cons.inj same).1
          exact .inr ⟨rfl, by simpa using unprefixed⟩
        · rintro (undotted | ⟨-, rfl⟩)
          · exact absurd dotted undotted
          · rw [prefixLast_nil]
            rfl
      | aliased =>
        refine iff_of_false (fun same => ?_) (by simpa using dotted)
        have lengths := congrArg List.length same
        simp [prefixFirst, ownParts] at lengths
        omega

end Name

/-! ### Selectors are no names -/

namespace Text

variable {text before behind : List Char}

theorem cutArrow?_of_hasArrow (arrow : hasArrow text = true) : ∃ before behind,
    cutArrow? text = some (before, behind) ∧ text = before ++ '-' :: '>' :: behind := by
  fun_induction hasArrow text with
  | case1 => cases arrow
  | case2 rest => exact ⟨[], rest, rfl, rfl⟩
  | case3 c rest other ih =>
    obtain ⟨before, behind, cut, rfl⟩ := ih arrow
    refine ⟨c :: before, behind, ?_, rfl⟩
    rw [cutArrow?, cut]
    · rfl
    · exact other

/-- An arrow that no word behind a dot has stands in front of the dot. -/
theorem mem_behind_arrow {a b : List Char} (arrowless : ¬ ['-', '>'] <:+: b)
    (shape : a ++ '.' :: b = before ++ '-' :: '>' :: behind) : '.' ∈ behind := by
  rcases List.append_eq_append_iff.mp shape with ⟨between, -, rear⟩ | ⟨between, -, rear⟩
  · cases between with
    | nil => cases rear
    | cons c between =>
      obtain ⟨-, rfl⟩ := List.cons.inj rear
      exact absurd ⟨between, behind, by simp⟩ arrowless
  · have member : '.' ∈ '-' :: '>' :: behind := rear ▸ by simp
    simpa using member

theorem exists_mem_splitArrows {c : Char} (apart : c ≠ '-' ∧ c ≠ '>') (member : c ∈ text) :
    ∃ segment ∈ splitArrows text, c ∈ segment := by
  fun_induction splitArrows text with
  | case1 => cases member
  | case2 rest ih =>
    have inside : c ∈ rest := by simpa [apart] using member
    obtain ⟨segment, there, found⟩ := ih inside
    exact ⟨segment, List.mem_cons_of_mem _ there, found⟩
  | case3 d rest other ih =>
    cases pieces : splitArrows rest with
    | nil =>
      rcases List.mem_cons.mp member with rfl | inside
      · exact ⟨[c], List.mem_cons_self, List.mem_cons_self⟩
      · obtain ⟨segment, there, -⟩ := ih inside
        rw [pieces] at there
        cases there
    | cons piece pieces' =>
      rcases List.mem_cons.mp member with rfl | inside
      · exact ⟨c :: piece, List.mem_cons_self, List.mem_cons_self⟩
      · obtain ⟨segment, there, found⟩ := ih inside
        rw [pieces] at there
        rcases List.mem_cons.mp there with rfl | there
        · exact ⟨d :: segment, List.mem_cons_self, List.mem_cons_of_mem _ found⟩
        · exact ⟨segment, List.mem_cons_of_mem _ there, found⟩

end Text

theorem JsonPath.attributes_ne_nil {path : List Char} (dotted : '.' ∈ path) :
    attributes path ≠ [] := by
  obtain ⟨segment, member, inside⟩ := Text.exists_mem_splitArrows (by decide) dotted
  have filled : segment ≠ [] := List.ne_nil_of_mem inside
  intro none
  rw [attributes, List.map_eq_nil_iff] at none
  have empty := List.flatMap_eq_nil_iff.mp none segment member
  dsimp only at empty
  split at empty
  · next bare =>
    obtain ⟨token, tokens, groups⟩ := groups_of_bare filled bare
    rw [groups] at empty
    cases empty
  · cases empty

namespace Engine

open QuoteMarks

variable {e : Engine} {field path text rest : List Char} {selector word : String}

theorem wrapField_read (unparted : Name.Unparted field)
    (apart : rest.head? ≠ some e.dialect.quoteMarks.closing) (ends : rest.head? ≠ some '.') :
    ∃ parts, e.dialect.quoteMarks.parts? ((e.wrapField field).toList ++ rest)
      = some (parts, rest) := by
  obtain ⟨segments, spelt⟩ : ∃ segments, Name.Segments field segments :=
    ⟨_, Name.segments_iff.mpr rfl⟩
  rw [wrapField, Name.splitAlias?_eq_none_iff.mpr unparted]
  dsimp only
  rw [String.toList_ofList, plainColumn_eq spelt]
  exact ⟨_, parts?_dotted (proper e.dialect) (Name.prefixFirst_ne_nil spelt.filled) apart ends⟩

/-- A selector is a call of a function, or a field with something behind it if its path is not
blank. -/
theorem jsonSelector_shape (cut : Text.cutArrow? selector.toList = some (field, path))
    (ok : e.jsonSelector selector = .ok word) : word.toList.head? = some 'j' ∨
      ∃ behind, word.toList = (e.wrapField field).toList ++ behind ∧
        (behind.head? = some '-' ∨ behind = [] ∧ JsonPath.attributes path = []) := by
  unfold jsonSelector at ok
  split at ok
  next field' path' parts =>
  split at ok
  · cases ok
  · obtain rfl := Except.ok.inj ok
    exact .inl (by simp)
  · obtain rfl := Except.ok.inj ok
    refine .inr ?_
    rw [arrowSelector, cut]
    dsimp only [Option.getD_some]
    cases last : (JsonPath.attributes path).getLast? with
    | none => exact ⟨[], by simp, .inr ⟨rfl, List.getLast?_eq_none_iff.mp last⟩⟩
    | some item =>
      refine ⟨((JsonPath.attributes path).dropLast.flatMap fun item => '-' :: '>' :: item)
        ++ "->>".toList ++ item, by simp, .inl ?_⟩
      cases (JsonPath.attributes path).dropLast <;> rfl
  · obtain rfl := Except.ok.inj ok
    exact .inl (by simp)
  · obtain rfl := Except.ok.inj ok
    exact .inl (by simp)

/-- A selector is never read back whole, unless its path is blank and nothing follows. -/
theorem jsonSelector_unread (unparted : Name.Unparted text)
    (cut : Text.cutArrow? text = some (field, path)) (inside : field <:+: text)
    (ok : e.jsonSelector (String.ofList text) = .ok word)
    (more : rest.head? = some ' ' ∨ rest = [] ∧ JsonPath.attributes path ≠ [])
    (parts : List (List Char)) :
    e.dialect.quoteMarks.parts? (word.toList ++ rest) ≠ some (parts, []) := by
  have within : Name.Unparted field := fun part separator found =>
    unparted part separator (found.trans inside)
  rcases jsonSelector_shape (by simpa using cut) ok with call | ⟨behind, shape, follows⟩
  · obtain ⟨tail, shape⟩ : ∃ tail, word.toList = 'j' :: tail := by
      cases chars : word.toList with
      | nil => simp [chars] at call
      | cons c tail => exact ⟨tail, by simpa [chars] using call⟩
    have opening : 'j' ≠ e.dialect.quoteMarks.opening := by cases e.dialect <;> decide
    have none : e.dialect.quoteMarks.part? ('j' :: (tail ++ rest)) = none := by
      simp [part?, opening]
    rw [shape, List.cons_append, parts?_of_part?_eq_none none]
    exact (Option.some_ne_none _).symm
  · have start : (behind ++ rest).head? = some '-' ∨ (behind ++ rest).head? = some ' ' := by
      rcases follows with arrow | ⟨rfl, blank⟩
      · exact .inl (by simp [arrow])
      · exact .inr (more.resolve_right fun nothing => nothing.2 blank)
    have closing : (behind ++ rest).head? ≠ some e.dialect.quoteMarks.closing := by
      rcases start with start | start
      all_goals
        rw [start]
        cases e.dialect <;> decide
    have dot : (behind ++ rest).head? ≠ some '.' := by
      rcases start with start | start <;> simp [start]
    obtain ⟨read, found⟩ := wrapField_read within closing dot
    rw [shape, List.append_assoc, found]
    intro same
    have none : behind ++ rest = [] := (Prod.mk.inj (Option.some.inj same)).2
    rw [none] at start
    simp at start

theorem wrapField_eq (unparted : Name.Unparted field) :
    e.wrapField field = String.ofList (e.plainColumn field) := by
  rw [wrapField, Name.splitAlias?_eq_none_iff.mpr unparted]

/-- A name with a separator is never read back as one without alias. -/
theorem wrap_parted_unread {name : String} (parted : ¬ Name.Unparted name.toList)
    (ok : e.wrap name = .ok word) (parts : List (List Char)) :
    e.dialect.quoteMarks.name? word.toList ≠ some (parts, none) := by
  obtain ⟨⟨target, called⟩, cut⟩ :=
    Option.ne_none_iff_exists'.mp (mt Name.splitAlias?_eq_none_iff.mp parted)
  have unparted := (Name.splitAlias?_eq_some_iff.mp cut).unparted
  rw [wrap, wrapAliased, cut] at ok
  obtain ⟨column, columnOk, rfl⟩ : ∃ column, e.wrapUnaliased target = .ok column ∧
      String.ofList (Name.aliased column.toList (e.quote called)) = word := map_ok ok
  intro read
  have whole := parts?_of_name? read
  rw [String.toList_ofList, Name.aliased, List.append_assoc] at whole
  by_cases arrow : Text.hasArrow target = true
  · rw [wrapUnaliased, if_pos arrow] at columnOk
    obtain ⟨before, behind, cut, shape⟩ := Text.cutArrow?_of_hasArrow arrow
    have inside : before <:+: target := ⟨[], '-' :: '>' :: behind, shape.symm⟩
    exact jsonSelector_unread unparted cut inside columnOk (.inl rfl) parts whole
  · rw [wrapUnaliased_eq (by simpa using arrow), ← wrapField_eq unparted] at columnOk
    obtain rfl := Except.ok.inj columnOk
    have blank : e.dialect.quoteMarks.closing ≠ ' ' := (proper e.dialect).blank
    have start : (" as ".toList ++ e.quote called).head? ≠ some e.dialect.quoteMarks.closing := by
      simpa using blank.symm
    obtain ⟨front, found⟩ := wrapField_read unparted start (by simp)
    rw [found] at whole
    simp at whole

/-- A name with an arrow and a dot behind it is never read back without alias. -/
theorem wrap_arrow_unread {name : String} (unparted : Name.Unparted name.toList)
    (cut : Text.cutArrow? name.toList = some (field, path))
    (inside : field <:+: name.toList) (arrow : Text.hasArrow name.toList = true)
    (dotted : '.' ∈ path) (ok : e.wrap name = .ok word) (parts : List (List Char)) :
    e.dialect.quoteMarks.name? word.toList ≠ some (parts, none) := by
  rw [wrap, wrapAliased, Name.splitAlias?_eq_none_iff.mpr unparted] at ok
  dsimp only at ok
  rw [wrapUnaliased, if_pos arrow] at ok
  intro read
  have whole := parts?_of_name? read
  rw [← List.append_nil word.toList] at whole
  exact jsonSelector_unread unparted cut inside ok
    (.inr ⟨rfl, JsonPath.attributes_ne_nil dotted⟩) parts whole

/-! ### Columns behind a target -/

variable {name column : String} {segments columns : List (List Char)}
  {aliasName : Option (List Char)}

/-- A column as a write has it quoted behind its target. -/
def targetColumn (e : Engine) (name column : String) : Except CompileError String := do
  let target ← targetAlias (some (.name name))
  e.wrap (target ++ "." ++ column)

/-- A column behind the target itself. -/
def ownColumn (e : Engine) (name : String) (columns : List (List Char)) : String :=
  e.ownName name ++ "." ++ String.ofList (Name.dotted (columns.map e.quote))

theorem targetColumn_eq (spelt : Name.Spells name.toList segments aliasName) :
    e.targetColumn name column
      = e.wrap (String.ofList (aliasName.getD name.toList ++ '.' :: column.toList)) := by
  have target : targetAlias (some (.name name))
      = .ok (String.ofList (aliasName.getD name.toList)) := by
    rw [targetAlias]
    cases spelt with
    | bare unparted => simp [Name.splitAlias?_eq_none_iff.mpr unparted]
    | aliased aliased => simp [Name.splitAlias?_eq_some_iff.mpr aliased]
  rw [targetColumn, target]
  show e.wrap _ = _
  congr 1
  apply String.toList_inj.mp
  simp

theorem ownName_eq (spelt : Name.Spells name.toList segments aliasName) :
    (e.ownName name).toList = Name.dotted
      ((Name.ownParts e.settings.tablePrefix.toList segments aliasName).map e.quote) := by
  rw [ownName]
  cases spelt with
  | bare unparted spelt =>
    rw [Name.splitAlias?_eq_none_iff.mpr unparted, wrapTable,
      Name.splitAlias?_eq_none_iff.mpr unparted]
    dsimp only
    rw [String.toList_ofList, plainTable_eq spelt]
    rfl
  | aliased aliased =>
    rw [Name.splitAlias?_eq_some_iff.mpr aliased]
    simp [Name.ownParts, Name.dotted, quoteTable]

theorem ownColumn_eq (spelt : Name.Spells name.toList segments aliasName)
    (more : columns ≠ []) : (e.ownColumn name columns).toList = Name.dotted
      ((Name.ownParts e.settings.tablePrefix.toList segments aliasName ++ columns).map
        e.quote) := by
  have filled := Name.ownParts_ne_nil (p := e.settings.tablePrefix.toList) spelt
  rw [List.map_append, Name.dotted_append (by simpa using filled) (by simpa using more),
    ← ownName_eq spelt]
  simp [ownColumn]

theorem ownColumn_read (spelt : Name.Spells name.toList segments aliasName)
    (more : columns ≠ []) : e.dialect.quoteMarks.name? (e.ownColumn name columns).toList
      = some (Name.ownParts e.settings.tablePrefix.toList segments aliasName ++ columns,
          none) := by
  rw [ownColumn_eq spelt more]
  exact name?_dotted (proper e.dialect) (by simp [more])

/-- A column is quoted behind its target just when the name of the target is requoted. -/
theorem targetColumn_eq_iff (spelt : Name.Spells name.toList segments aliasName)
    (plain : Name.Plain column.toList columns) :
    e.targetColumn name column = .ok (e.ownColumn name columns) ↔
      Name.Requoted e.settings.tablePrefix.toList name.toList aliasName := by
  rw [targetColumn_eq spelt]
  generalize whole : String.ofList (aliasName.getD name.toList ++ '.' :: column.toList) = behind
  have chars : behind.toList = aliasName.getD name.toList ++ '.' :: column.toList := by
    rw [← whole, String.toList_ofList]
  have unpartedIff : Name.Unparted behind.toList ↔ Name.Unparted (aliasName.getD name.toList) := by
    rw [chars, Name.unparted_dot_iff, and_iff_left plain.unparted]
  obtain ⟨inner, named⟩ : ∃ inner, Name.Segments (aliasName.getD name.toList) inner :=
    ⟨_, Name.segments_iff.mpr rfl⟩
  have segmented : Name.Segments behind.toList (inner ++ columns) :=
    chars ▸ named.append plain.spelt
  have arrowIff : Text.hasArrow behind.toList = true ↔
      ['-', '>'] <:+: aliasName.getD name.toList := by
    rw [Text.hasArrow_iff, chars, Text.infix_append_cons_iff (by decide),
      or_iff_left plain.arrowless]
  have own := ownColumn_read (e := e) spelt plain.spelt.filled
  by_cases unparted : Name.Unparted behind.toList
  · by_cases arrow : Text.hasArrow behind.toList = true
    · refine iff_of_false (fun ok => ?_) fun h => h.arrowless (arrowIff.mp arrow)
      obtain ⟨before, path, cut, shape⟩ := Text.cutArrow?_of_hasArrow arrow
      have dotted : '.' ∈ path := Text.mem_behind_arrow plain.arrowless (chars.symm.trans shape)
      have inside : before <:+: behind.toList := ⟨[], '-' :: '>' :: path, shape.symm⟩
      exact wrap_arrow_unread unparted cut inside arrow dotted ok _ own
    · have written : e.wrap behind = .ok (String.ofList (Name.dotted
          ((Name.prefixFirst e.settings.tablePrefix.toList (inner ++ columns)).map
            e.quote))) := by
        rw [wrap, wrapAliased, Name.splitAlias?_eq_none_iff.mpr unparted]
        dsimp only
        rw [wrapUnaliased_eq (by simpa using arrow), plainColumn_eq segmented]
      have filled := Name.prefixFirst_ne_nil (p := e.settings.tablePrefix.toList) segmented.filled
      have parts : e.wrap behind = .ok (e.ownColumn name columns) ↔
          Name.prefixFirst e.settings.tablePrefix.toList (inner ++ columns)
            = Name.ownParts e.settings.tablePrefix.toList segments aliasName
              ++ columns := by
        rw [written, Except.ok.injEq, ← String.toList_inj, String.toList_ofList]
        constructor
        · intro same
          have read := name?_dotted (proper e.dialect) filled
          rw [← same] at own
          exact (Prod.mk.inj (Option.some.inj (read.symm.trans own))).1
        · intro same
          rw [same, ownColumn_eq spelt plain.spelt.filled]
      rw [parts, Name.prefixFirst_append_iff spelt plain.spelt.filled named]
      exact ⟨fun single => ⟨mt arrowIff.mpr arrow, unpartedIff.mp unparted, single⟩,
        fun h => h.single⟩
  · exact iff_of_false (fun ok => wrap_parted_unread unparted ok _ own)
      fun h => unparted (unpartedIff.mpr h.unparted)

end Engine

end SqlCompiler
