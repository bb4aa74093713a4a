import SqlCompiler.Name.Alias
/-!
# Names and their parts

A separator is a run of blanks, the word `as` in any case, and a run of blanks. A name with one is
parted at its first separator into a target and an alias; a target consists of the segments between
its dots. `Name.Spells` says so of a name without the functions that part it.
-/

namespace SqlCompiler

namespace Text

theorem splitOn_eq (mark : Char) (text : List Char) : splitOn mark text = text.splitOn mark := by
  rw [List.splitOn_eq_splitOnP]
  induction text with
  | nil => rfl
  | cons c text ih =>
    rw [splitOn, List.splitOnP_cons_eq_if_modifyHead, ih]
    by_cases same : c = mark
    · rw [if_pos same, if_pos (beq_iff_eq.mpr same)]
    · rw [if_neg same, if_neg (by simpa using same)]
      cases parts : text.splitOnP (· == mark) with
      | nil => exact absurd (ih.trans parts) (splitOn_ne_nil mark text)
      | cons part parts => rfl

theorem not_mem_of_mem_splitOn {mark : Char} {text part : List Char}
    (member : part ∈ splitOn mark text) : mark ∉ part := by
  induction text generalizing part with
  | nil => simp_all [splitOn]
  | cons c text ih =>
    rw [splitOn] at member
    split at member
    · rcases List.mem_cons.mp member with rfl | member
      · exact List.not_mem_nil
      · exact ih member
    · next apart =>
      cases parts : splitOn mark text with
      | nil => exact absurd parts (splitOn_ne_nil mark text)
      | cons first rest =>
        rw [parts, consFirst] at member
        rcases List.mem_cons.mp member with rfl | member
        · rw [List.mem_cons, not_or]
          exact ⟨Ne.symm apart, ih (parts ▸ List.mem_cons_self)⟩
        · exact ih (parts ▸ List.mem_cons_of_mem _ member)

/-- The texts between the occurrences of a mark are those that make up the text with it. -/
theorem splitOn_eq_iff {mark : Char} {text : List Char} {parts : List (List Char)} :
    splitOn mark text = parts ↔
      parts ≠ [] ∧ (∀ part ∈ parts, mark ∉ part) ∧ [mark].intercalate parts = text := by
  constructor
  · rintro rfl
    refine ⟨splitOn_ne_nil mark text, fun part => not_mem_of_mem_splitOn, ?_⟩
    rw [splitOn_eq, List.intercalate_splitOn]
  · rintro ⟨some, apart, rfl⟩
    rw [splitOn_eq, List.splitOn_intercalate mark apart some]

end Text

namespace Name

open Text

/-- Blanks, the word `as` in any case of its letters, and blanks. -/
inductive Separator : List Char → Prop
  | mk {before behind : List Char} {a s : Char} :
      before ≠ [] → (∀ c ∈ before, isSpace c = true) → a = 'a' ∨ a = 'A' → s = 's' ∨ s = 'S' →
      behind ≠ [] → (∀ c ∈ behind, isSpace c = true) → Separator (before ++ a :: s :: behind)

/-- The name has no separator anywhere. -/
def Unparted (name : List Char) : Prop :=
  ∀ separator, Separator separator → ¬ separator <:+: name

/-- The name is parted at its first separator, which takes along all blanks behind the word. -/
structure Aliased (name target aliasName : List Char) : Prop where
  parted : ∃ separator, Separator separator ∧ name = target ++ (separator ++ aliasName)
  whole : aliasName.head?.all fun c => !isSpace c
  first : ∀ before separator behind, Separator separator → name = before ++ (separator ++ behind) →
    target.length ≤ before.length

variable {name target aliasName text rest : List Char}

theorem isSpace_of_letter {c : Char} (letter : c = 'a' ∨ c = 'A' ∨ c = 's' ∨ c = 'S') :
    isSpace c = false := by
  rcases letter with rfl | rfl | rfl | rfl <;> rfl

theorem blanks_takeWhile (text : List Char) : ∀ c ∈ text.takeWhile isSpace, isSpace c = true :=
  List.all_eq_true.mp List.all_takeWhile

theorem dropWhile_head? (p : Char → Bool) (text : List Char) :
    (text.dropWhile p).head?.all fun c => !p c := by
  have first := List.head?_dropWhile_not p text
  cases head : (text.dropWhile p).head? with
  | none => rfl
  | some c =>
    rw [head] at first
    simpa using first

theorem dropWhile_append_of_head? {p : Char → Bool} {a b : List Char} (taken : ∀ c ∈ a, p c = true)
    (stop : b.head?.all fun c => !p c) : (a ++ b).dropWhile p = b := by
  rw [List.dropWhile_append_of_pos taken]
  cases b with
  | nil => rfl
  | cons c b => exact List.dropWhile_cons_of_neg (by simpa using stop)

/-- What stands behind the blanks after the word. -/
theorem afterAs?_eq_some_iff : afterAs? text = some aliasName ↔
    ∃ a s behind, text = a :: s :: (behind ++ aliasName) ∧ (a = 'a' ∨ a = 'A') ∧
      (s = 's' ∨ s = 'S') ∧ behind ≠ [] ∧ (∀ c ∈ behind, isSpace c = true) ∧
      aliasName.head?.all fun c => !isSpace c := by
  constructor
  · intro found
    unfold afterAs? at found
    split at found
    · next a s blank rest =>
      split at found
      · next word =>
        obtain rfl := Option.some.inj found
        refine ⟨a, s, blank :: rest.takeWhile isSpace, ?_, word.1, word.2.1, List.cons_ne_nil _ _,
          ?_, dropWhile_head? isSpace rest⟩
        · rw [List.cons_append, List.takeWhile_append_dropWhile]
        · exact List.forall_mem_cons.mpr ⟨word.2.2, blanks_takeWhile _⟩
      · cases found
    · cases found
  · rintro ⟨a, s, behind, rfl, first, second, some, blanks, stop⟩
    cases behind with
    | nil => exact absurd rfl some
    | cons blank behind =>
      obtain ⟨own, others⟩ := List.forall_mem_cons.mp blanks
      rw [List.cons_append, afterAs?, if_pos ⟨first, second, own⟩,
        dropWhile_append_of_head? others stop]

/-- The alias of a name that begins with a separator. -/
def aliasAtStart? : List Char → Option (List Char)
  | [] => none
  | c :: rest => if isSpace c then afterAs? (rest.dropWhile isSpace) else none

theorem aliasAtStart?_eq_some_iff : aliasAtStart? name = some aliasName ↔
    (∃ separator, Separator separator ∧ name = separator ++ aliasName) ∧
      aliasName.head?.all fun c => !isSpace c := by
  constructor
  · intro found
    unfold aliasAtStart? at found
    split at found
    · cases found
    · next c rest =>
      split at found
      · next blank =>
        obtain ⟨a, s, behind, read, first, second, some, blanks, stop⟩ :=
          afterAs?_eq_some_iff.mp found
        refine ⟨⟨(c :: rest.takeWhile isSpace) ++ a :: s :: behind, ?_, ?_⟩, stop⟩
        · exact .mk (List.cons_ne_nil _ _) (List.forall_mem_cons.mpr
            ⟨blank, blanks_takeWhile _⟩) first second some blanks
        · have cut : rest.takeWhile isSpace ++ a :: s :: (behind ++ aliasName) = rest :=
            read ▸ List.takeWhile_append_dropWhile
          rw [List.append_assoc, List.cons_append]
          exact congrArg (c :: ·) cut.symm
      · cases found
  · rintro ⟨⟨separator, @⟨before, behind, a, s, some, blanks, first, second, more, others⟩, rfl⟩,
      stop⟩
    cases before with
    | nil => exact absurd rfl some
    | cons c before =>
      obtain ⟨own, blanks⟩ := List.forall_mem_cons.mp blanks
      have letter : isSpace a = false := isSpace_of_letter (first.imp_right .inl)
      rw [List.cons_append, List.cons_append, aliasAtStart?, if_pos own, List.append_assoc,
        dropWhile_append_of_head? blanks (by simp [letter])]
      exact afterAs?_eq_some_iff.mpr ⟨a, s, behind, rfl, first, second, more, others, stop⟩

/-- A separator takes along the blanks that stand behind it. -/
theorem Separator.aliasAtStart? (separator : Separator text) (rest : List Char) :
    aliasAtStart? (text ++ rest) = some (rest.dropWhile isSpace) := by
  refine aliasAtStart?_eq_some_iff.mpr ⟨?_, dropWhile_head? isSpace rest⟩
  obtain @⟨before, behind, a, s, some, blanks, first, second, more, others⟩ := separator
  refine ⟨before ++ a :: s :: (behind ++ rest.takeWhile isSpace),
    .mk some blanks first second (by simp [more]) ?_, ?_⟩
  · exact List.forall_mem_append.mpr ⟨others, blanks_takeWhile _⟩
  · simp [List.takeWhile_append_dropWhile]

theorem splitAlias?_cons (c : Char) (rest : List Char) : splitAlias? (c :: rest) =
    match aliasAtStart? (c :: rest) with
    | some aliasName => some ([], aliasName)
    | none => (splitAlias? rest).map fun (target, aliasName) => (c :: target, aliasName) :=
  rfl

theorem Separator.ne_nil (separator : Separator text) : text ≠ [] := by
  obtain ⟨-, -, -, -, -, -⟩ := separator
  simp

/-! ### Aliases -/

theorem splitAlias?_eq_none_iff : splitAlias? name = none ↔ Unparted name := by
  induction name with
  | nil => exact ⟨fun _ text separator inside => separator.ne_nil (List.infix_nil.mp inside),
      fun _ => rfl⟩
  | cons c rest ih =>
    rw [splitAlias?_cons]
    constructor
    · intro none text separator inside
      split at none
      · cases none
      · next start =>
        rcases List.infix_cons_iff.mp inside with ⟨behind, here⟩ | later
        · rw [← here, separator.aliasAtStart?] at start
          cases start
        · exact ih.mp (Option.map_eq_none_iff.mp none) text separator later
    · intro unparted
      split
      · next aliasName start =>
        obtain ⟨⟨text, separator, here⟩, -⟩ := aliasAtStart?_eq_some_iff.mp start
        exact absurd ⟨[], aliasName, here.symm⟩ (unparted text separator)
      · refine Option.map_eq_none_iff.mpr (ih.mpr fun text separator inside => ?_)
        exact unparted text separator (List.infix_cons_iff.mpr (.inr inside))

theorem splitAlias?_eq_some_iff :
    splitAlias? name = some (target, aliasName) ↔ Aliased name target aliasName := by
  induction name generalizing target with
  | nil =>
    refine ⟨fun none => (by cases none), fun aliased => ?_⟩
    obtain ⟨text, separator, parted⟩ := aliased.parted
    have empty := List.append_eq_nil_iff.mp (List.append_eq_nil_iff.mp parted.symm).2
    exact absurd empty.1 separator.ne_nil
  | cons c rest ih =>
    rw [splitAlias?_cons]
    constructor
    · intro found
      split at found
      · next start =>
        obtain ⟨parted, whole⟩ := aliasAtStart?_eq_some_iff.mp start
        obtain ⟨rfl, rfl⟩ := Prod.mk.inj (Option.some.inj found)
        exact ⟨parted, whole, fun _ _ _ _ _ => Nat.zero_le _⟩
      · next start =>
        obtain ⟨⟨target, aliasName⟩, inner, same⟩ := Option.map_eq_some_iff.mp found
        obtain ⟨rfl, rfl⟩ := Prod.mk.inj same
        obtain ⟨⟨text, separator, parted⟩, whole, first⟩ := ih.mp inner
        refine ⟨⟨text, separator, congrArg (c :: ·) parted⟩, whole, ?_⟩
        rintro (_ | ⟨d, before⟩) text behind separator cut
        · rw [cut, List.nil_append, separator.aliasAtStart?] at start
          cases start
        · exact Nat.succ_le_succ (first before text behind separator (List.cons.inj cut).2)
    · rintro ⟨⟨text, separator, parted⟩, whole, first⟩
      split
      · next start =>
        -- The name begins with a separator, so its target is empty.
        obtain ⟨⟨text', separator', here⟩, -⟩ := aliasAtStart?_eq_some_iff.mp start
        have empty : target = [] :=
          List.length_eq_zero_iff.mp (Nat.le_zero.mp (first [] text' _ separator' here))
        subst empty
        have own := aliasAtStart?_eq_some_iff.mpr ⟨⟨text, separator, parted⟩, whole⟩
        rw [Option.some.inj (start.symm.trans own)]
      · next start =>
        cases target with
        | nil =>
          rw [parted, List.nil_append, separator.aliasAtStart?] at start
          cases start
        | cons d target =>
          obtain ⟨rfl, tail⟩ : c = d ∧ rest = target ++ (text ++ aliasName) :=
            List.cons.inj parted
          have inner := ih.mpr ⟨⟨text, separator, tail⟩, whole, fun before text' behind
            separator' cut => Nat.le_of_succ_le_succ (first (c :: before) text' behind separator'
              (congrArg (c :: ·) cut))⟩
          rw [inner]
          rfl

theorem splitAlias?_prefix (cut : splitAlias? name = some (target, aliasName)) :
    target <+: name := by
  obtain ⟨separator, -, parted⟩ := (splitAlias?_eq_some_iff.mp cut).parted
  exact ⟨separator ++ aliasName, parted.symm⟩

/-- The segments of a text, which has dots between them and nowhere else. -/
structure Segments (text : List Char) (segments : List (List Char)) : Prop where
  filled : segments ≠ []
  undotted : ∀ segment ∈ segments, '.' ∉ segment
  dotted : ['.'].intercalate segments = text

/-- The segments of a name and its alias, if it has one. -/
inductive Spells (name : List Char) : List (List Char) → Option (List Char) → Prop
  | bare {segments : List (List Char)} :
      Unparted name → Segments name segments → Spells name segments none
  | aliased {target aliasName : List Char} {segments : List (List Char)} :
      Aliased name target aliasName → Segments target segments →
      Spells name segments (some aliasName)

theorem segments_iff {segments : List (List Char)} :
    Segments text segments ↔ splitOn '.' text = segments := by
  rw [splitOn_eq_iff]
  constructor
  · rintro ⟨filled, undotted, dotted⟩
    exact ⟨filled, undotted, dotted⟩
  · rintro ⟨filled, undotted, dotted⟩
    exact ⟨filled, undotted, dotted⟩

theorem exists_spells (name : List Char) :
    ∃ segments aliasName, Spells name segments aliasName := by
  cases cut : splitAlias? name with
  | none => exact ⟨_, _, .bare (splitAlias?_eq_none_iff.mp cut) (segments_iff.mpr rfl)⟩
  | some parts => exact ⟨_, _, .aliased (splitAlias?_eq_some_iff.mp cut) (segments_iff.mpr rfl)⟩

end Name

end SqlCompiler
