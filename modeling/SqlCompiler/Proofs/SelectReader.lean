import SqlCompiler.Proofs.CarriedClauses
import SqlCompiler.Proofs.SharedPaths
import SqlCompiler.Proofs.TargetNames
/-!
# The reader of selects

MySQL takes a limit of recursion as a hint behind the `select` of the statement itself. Before a
union that `select` is looked for in finished text, by a reader that knows neither names nor
literals: it counts parentheses and takes the first `select` at the depth of the statement. Here is
which words before the right one it overlooks, and that a hint anywhere else makes another text.
-/

namespace SqlCompiler

def nest (depth : Nat) (c : Char) : Nat :=
  if c = '(' then depth + 1 else if c = ')' then depth - 1 else depth

/-- The depth of parentheses behind a text. Those that close nothing do not count. -/
def depthBehind (depth : Nat) (text : List Char) : Nat :=
  text.foldl nest depth

/-- What a statement may begin behind. -/
def OpensBlock (c : Char) : Prop :=
  c = ' ' ∨ c = '('

/-- Words before a `select` at a depth, none of which is taken for it. -/
structure Overlooked (base depth : Nat) (previous : Char) (front : List Char) : Prop where
  level : depthBehind depth front = base
  free : ∀ before behind, front = before ++ ("select".toList ++ behind) →
    depthBehind depth before = base → ¬ OpensBlock (before.getLast?.getD previous)

/-- Words before the `select` of the first member of a union, none of which is taken for it. -/
structure Quiet (front : List Char) : Prop where
  level : depthBehind 0 front = 1
  free : ∀ before behind, front = before ++ ("select".toList ++ behind) →
    depthBehind 0 before = 1 → ∀ c ∈ before.getLast?, ¬ OpensBlock c

theorem quiet_iff {front : List Char} : Quiet front ↔ Overlooked 1 0 ' ' front := by
  have last {before : List Char} (inside : depthBehind 0 before = 1) :
      ∃ c, before.getLast? = some c := by
    cases before with
    | nil => simp [depthBehind] at inside
    | cons c before => exact ⟨_, List.getLast?_cons⟩
  constructor
  · intro h
    refine ⟨h.level, fun before behind cut inside => ?_⟩
    obtain ⟨c, ends⟩ := last inside
    rw [ends]
    exact h.free before behind cut inside c ends
  · intro h
    refine ⟨h.level, fun before behind cut inside c ends => ?_⟩
    have open' := h.free before behind cut inside
    rwa [Option.mem_def.mp ends] at open'

/-- A `select` that is taken for the one at the depth `base`. -/
def Taken (base depth : Nat) (previous : Char) (text : List Char) : Prop :=
  depth = base ∧ OpensBlock previous ∧ "select".toList <+: text

theorem selectOffset?_taken {base depth : Nat} {previous c : Char} {rest : List Char}
    (taken : Taken base depth previous (c :: rest)) (behind : Nat) :
    selectOffset? base depth previous behind (c :: rest) = some behind := by
  obtain ⟨level, opened, word⟩ := taken
  obtain rfl : c = 's' := (List.cons_prefix_cons.mp word).1.symm
  rw [selectOffset?, if_neg (by decide), if_neg (by decide),
    if_pos ⟨level, opened, Text.dropLead?_isSome_iff.mpr word⟩]

theorem selectOffset?_missed {base depth : Nat} {previous c : Char} {rest : List Char}
    (missed : ¬ Taken base depth previous (c :: rest)) (behind : Nat) :
    selectOffset? base depth previous behind (c :: rest)
      = selectOffset? base (nest depth c) c (behind + 1) rest := by
  rw [selectOffset?, nest]
  split
  · rfl
  · split
    · rfl
    · rw [if_neg fun here => missed ⟨here.1, here.2.1, Text.dropLead?_isSome_iff.mp here.2.2⟩]

theorem overlooked_cons {base depth : Nat} {previous c : Char} {front : List Char} :
    Overlooked base depth previous (c :: front) ↔
      ¬ Taken base depth previous (c :: front) ∧ Overlooked base (nest depth c) c front := by
  constructor
  · intro h
    refine ⟨?_, h.level, fun before behind cut inside => ?_⟩
    · rintro ⟨level, opened, behind, cut⟩
      exact h.free [] behind cut.symm level opened
    · have later := h.free (c :: before) behind (by rw [cut]; rfl) inside
      rwa [List.getLast?_cons] at later
  · rintro ⟨missed, h⟩
    refine ⟨h.level, fun before behind cut inside => ?_⟩
    cases before with
    | nil => exact fun opened => missed ⟨inside, opened, behind, cut.symm⟩
    | cons first before =>
      obtain ⟨rfl, rest⟩ := List.cons.inj cut
      rw [List.getLast?_cons]
      exact h.free before behind rest inside

/-- A word that begins before a blank or a parenthesis ends before it. -/
theorem prefix_of_opensBlock {front rear word : List Char} {c : Char}
    (last : front.getLast? = some c) (apart : c ∉ word) (start : word <+: front ++ rear) :
    word <+: front := by
  rcases List.prefix_or_prefix_of_prefix start (List.prefix_append front rear) with inner | outer
  · exact inner
  · exact (apart (outer.mem (List.mem_of_getLast? last))).elim

theorem OpensBlock.not_mem_select {c : Char} (opens : OpensBlock c) : c ∉ "select".toList := by
  rcases opens with rfl | rfl <;> decide

/-- The reader finds a `select` where it is exactly if it overlooks the words before it. -/
theorem selectOffset?_eq_some_iff {base depth : Nat} {previous : Char} {front : List Char}
    (last : OpensBlock (front.getLast?.getD previous)) (behind : Nat) (rear : List Char) :
    selectOffset? base depth previous behind (front ++ ("select".toList ++ rear))
        = some (behind + front.length) ↔ Overlooked base depth previous front := by
  induction front generalizing depth previous behind with
  | nil =>
    have opened : OpensBlock previous := last
    have word : "select".toList <+: 's' :: ("elect".toList ++ rear) := List.prefix_append _ _
    constructor
    · intro found
      refine ⟨?_, fun before behind cut => by simp at cut⟩
      by_contra level
      have missed : ¬ Taken base depth previous ('s' :: ("elect".toList ++ rear)) :=
        fun taken => level taken.1
      obtain ⟨n, there, -⟩ :=
        Engine.selectOffset_prefix ((selectOffset?_missed missed behind).symm.trans found)
      rw [List.length_nil] at there
      omega
    · intro h
      exact selectOffset?_taken ⟨h.level, opened, word⟩ behind
  | cons c front ih =>
    have inner : OpensBlock (front.getLast?.getD c) := by rwa [List.getLast?_cons] at last
    have same : Taken base depth previous (c :: (front ++ ("select".toList ++ rear))) ↔
        Taken base depth previous (c :: front) := by
      refine and_congr_right fun level => and_congr_right fun opened =>
        ⟨fun word => ?_, fun word => ?_⟩
      · exact prefix_of_opensBlock List.getLast?_cons inner.not_mem_select word
      · exact word.trans (List.prefix_append (c :: front) _)
    rw [overlooked_cons, ← ih inner (behind + 1), ← same, List.cons_append]
    by_cases taken : Taken base depth previous (c :: (front ++ ("select".toList ++ rear)))
    · rw [selectOffset?_taken taken]
      exact iff_of_false (by simp) fun later => later.1 taken
    · rw [selectOffset?_missed taken, List.length_cons, ← Nat.add_assoc, Nat.add_right_comm]
      exact (and_iff_right taken).symm

theorem statementSelect?_own (rear : List Char) :
    statementSelect? ("select".toList ++ rear) = some 0 := by
  have word : "select".toList <+: 's' :: ("elect".toList ++ rear) := List.prefix_append _ _
  exact selectOffset?_taken ⟨rfl, .inl rfl, word⟩ 0

theorem statementSelect?_member {own : List Char} (start : own.head? ≠ some '(')
    (last : OpensBlock (own.getLast?.getD '(')) (rear : List Char) :
    statementSelect? (('(' :: own) ++ ("select".toList ++ rear)) = some ('(' :: own).length ↔
      Quiet ('(' :: own) := by
  have base : (('(' :: own) ++ ("select".toList ++ rear)).takeWhile (· = '(') = ['('] := by
    cases own with
    | nil => rfl
    | cons c own =>
      have other : c ≠ '(' := fun same => start (congrArg some same)
      simp [other]
  have last' : OpensBlock (('(' :: own).getLast?.getD ' ') := by rwa [List.getLast?_cons]
  rw [statementSelect?, base, quiet_iff, ← selectOffset?_eq_some_iff last' 0 rear, Nat.zero_add]
  rfl

/-! ### Words that are overlooked -/

/-- What is opened in a text is closed in it, and nothing else. -/
structure Paired (text : List Char) : Prop where
  never : ∀ before, before <+: text → 2 ≤ depthBehind 2 before
  level : depthBehind 2 text = 2

/-- Words outside parentheses of which none behind a blank begins like `select`, and groups in
parentheses. -/
inductive Outline : Char → List Char → Prop where
  | nil (previous : Char) : Outline previous []
  | char {previous c : Char} {text : List Char} (flat : c ≠ '(' ∧ c ≠ ')')
      (apart : OpensBlock previous → c ≠ 's') (rest : Outline c text) : Outline previous (c :: text)
  | group {previous : Char} {body text : List Char} (inside : Paired body)
      (rest : Outline ')' text) : Outline previous ('(' :: (body ++ ')' :: text))

theorem nest_flat {c : Char} (flat : c ≠ '(' ∧ c ≠ ')') (depth : Nat) : nest depth c = depth := by
  rw [nest, if_neg flat.1, if_neg flat.2]

/-- Nothing inside a group stands at the depth of the statement. -/
theorem overlooked_group {depth : Nat} {previous : Char} {body text : List Char}
    (inside : ∀ before, before <+: body → 2 ≤ depthBehind depth before)
    (level : depthBehind depth body = 2) (rest : Overlooked 1 1 ')' text) :
    Overlooked 1 depth previous (body ++ ')' :: text) := by
  induction body generalizing depth previous with
  | nil =>
    have two : depth = 2 := level
    subst two
    refine overlooked_cons.mpr ⟨?_, rest⟩
    rintro ⟨one, -⟩
    cases one
  | cons c body ih =>
    refine overlooked_cons.mpr ⟨?_, ih (fun before start => ?_) level⟩
    · rintro ⟨one, -⟩
      have deep : 2 ≤ depth := inside [] List.nil_prefix
      omega
    · exact inside (c :: before) (List.cons_prefix_cons.mpr ⟨rfl, start⟩)

theorem Outline.overlooked {previous : Char} {text : List Char} (h : Outline previous text) :
    Overlooked 1 1 previous text := by
  induction h with
  | nil previous => exact ⟨rfl, fun before behind cut => by simp at cut⟩
  | @char previous c text flat apart _ ih =>
    refine overlooked_cons.mpr ⟨?_, by rwa [nest_flat flat]⟩
    rintro ⟨-, opens, word⟩
    exact apart opens (List.cons_prefix_cons.mp word).1.symm
  | group inside _ ih =>
    refine overlooked_cons.mpr ⟨?_, overlooked_group inside.never inside.level ih⟩
    rintro ⟨-, -, word⟩
    exact absurd (List.cons_prefix_cons.mp word).1 (by decide)

/-- Behind a blank less is allowed than anywhere else. -/
theorem Outline.anywhere {text : List Char} (h : Outline ' ' text) (previous : Char) :
    Outline previous text := by
  cases h with
  | nil => exact .nil previous
  | char flat apart rest => exact .char flat (fun _ => apart (.inl rfl)) rest
  | group inside rest => exact .group inside rest

theorem Outline.append {previous : Char} {a b : List Char} (ha : Outline previous a)
    (hb : Outline ' ' b) : Outline previous (a ++ b) := by
  induction ha with
  | nil previous => exact hb.anywhere previous
  | char flat apart _ ih => exact .char flat apart ih
  | group inside _ ih =>
    rw [List.cons_append, List.append_assoc]
    exact .group inside ih

/-- A word without blanks and parentheses, and not one like `select`. -/
def Word (text : List Char) : Prop :=
  (∀ c ∈ text, c ≠ ' ' ∧ c ≠ '(' ∧ c ≠ ')') ∧ text.head? ≠ some 's'

instance (text : List Char) : Decidable (Word text) :=
  @instDecidableAnd _ _ (List.decidableBAll _ text) instDecidableNot

theorem Word.outline {text : List Char} (h : Word text) : Outline ' ' text := by
  have inside {previous : Char} {text : List Char} (solid : previous ≠ ' ' ∧ previous ≠ '(')
      (chars : ∀ c ∈ text, c ≠ ' ' ∧ c ≠ '(' ∧ c ≠ ')') : Outline previous text := by
    induction text generalizing previous with
    | nil => exact .nil previous
    | cons c text ih =>
      obtain ⟨own, rest⟩ := List.forall_mem_cons.mp chars
      have apart : ¬ OpensBlock previous := fun opens => opens.elim solid.1 solid.2
      exact .char own.2 (fun opens => (apart opens).elim) (ih ⟨own.1, own.2.1⟩ rest)
  cases text with
  | nil => exact .nil ' '
  | cons c text =>
    obtain ⟨own, rest⟩ := List.forall_mem_cons.mp h.1
    exact .char own.2 (fun _ same => h.2 (congrArg some same)) (inside ⟨own.1, own.2.1⟩ rest)

theorem outline_blank : Outline ' ' [' '] :=
  .char (by decide) (fun _ => by decide) (.nil ' ')

/-- A text without parentheses. -/
def Flat (text : List Char) : Prop :=
  ∀ c ∈ text, c ≠ '(' ∧ c ≠ ')'

instance (text : List Char) : Decidable (Flat text) :=
  List.decidableBAll _ text

theorem Flat.paired {text : List Char} (flat : Flat text) : Paired text := by
  have level (before : List Char) (start : before <+: text) : depthBehind 2 before = 2 := by
    have inside : Flat before := fun c member => flat c (start.mem member)
    clear start
    induction before with
    | nil => rfl
    | cons c before ih =>
      obtain ⟨own, rest⟩ := List.forall_mem_cons.mp inside
      rw [depthBehind, List.foldl_cons, nest_flat own]
      exact ih rest
  exact ⟨fun before start => Nat.le_of_eq (level before start).symm,
    level text (List.prefix_refl text)⟩

theorem Paired.outline {text : List Char} (h : Paired text) :
    Outline ' ' ('(' :: (text ++ [')'])) :=
  .group h (.nil ')')

theorem quiet_of_outline {own : List Char} (h : Outline '(' own) : Quiet ('(' :: own) := by
  refine quiet_iff.mpr (overlooked_cons.mpr ⟨?_, h.overlooked⟩)
  rintro ⟨none, -⟩
  cases none

/-! ### Marks in a text -/

/-- Words with a slash at their end, put into a text, are told apart from others that are put in
later, behind a `t`. -/
theorem insert_ne {text a b : List Char} {i j : Nat} (less : i < j) (inside : j ≤ text.length)
    (letter : (text.take j).getLast? = some 't') (slash : b.getLast? = some '/') :
    text.take i ++ (a ++ text.drop i) ≠ text.take j ++ (b ++ text.drop j) := by
  intro same
  obtain ⟨k, rfl⟩ := Nat.exists_eq_add_of_lt less
  rw [Nat.add_assoc] at inside letter same
  generalize more : k + 1 = n at inside letter same
  have between : (text.drop i).take n ≠ [] := by
    rw [ne_eq, List.take_eq_nil_iff, not_or]
    exact ⟨by omega, List.ne_nil_of_length_pos (by rw [List.length_drop]; omega)⟩
  rw [← List.take_append_drop n (text.drop i), List.drop_drop, List.take_add,
    List.append_assoc] at same
  have shifted := List.append_cancel_left same
  rw [← List.append_assoc, ← List.append_assoc] at shifted
  have ends := congrArg List.getLast? (List.append_cancel_right shifted)
  have last (front : List Char) : (front ++ (text.drop i).take n).getLast?
      = some (((text.drop i).take n).getLast between) := by
    rw [List.getLast?_append, List.getLast?_eq_some_getLast between]
    rfl
  rw [List.take_add, last] at letter
  rw [last, letter, List.getLast?_append, slash] at ends
  cases ends

theorem insert_inj {text a b : List Char} {i j : Nat} (inI : i ≤ text.length)
    (inJ : j ≤ text.length) (letterI : (text.take i).getLast? = some 't')
    (letterJ : (text.take j).getLast? = some 't') (slashA : a.getLast? = some '/')
    (slashB : b.getLast? = some '/')
    (same : text.take i ++ (a ++ text.drop i) = text.take j ++ (b ++ text.drop j)) :
    i = j ∧ a = b := by
  rcases Nat.lt_trichotomy i j with less | rfl | more
  · exact (insert_ne less inJ letterJ slashB same).elim
  · exact ⟨rfl, List.append_cancel_right (List.append_cancel_left same)⟩
  · exact (insert_ne more inI letterI slashA same.symm).elim

namespace Engine

variable {e : Engine}

theorem natText_inj {m n : Nat} : natText m = natText n ↔ m = n := by
  rw [natText, natText, String.ofList_inj, JsonPath.natDigits_inj]

def recursionHint (n : Nat) : String :=
  " /*+ SET_VAR(cte_max_recursion_depth=" ++ natText n ++ ") */"

theorem recursionHint_slash (n : Nat) : (recursionHint n).toList.getLast? = some '/' := by
  have slash : ") */".toList.getLast? = some '/' := by decide
  have ends : (recursionHint n).toList = _ ++ ") */".toList := String.toList_append
  rw [ends, List.getLast?_append, slash]
  rfl

theorem recursionHint_inj {m n : Nat} (same : recursionHint m = recursionHint n) : m = n := by
  have digits := (String.append_right_inj _).mp ((String.append_left_inj _).mp same)
  exact natText_inj.mp digits

/-- What ends in the word `select` ends in a `t`. -/
theorem getLast?_select {text : List Char} {n : Nat} (word : "select".toList <+: text.drop n) :
    n + 6 ≤ text.length ∧ (text.take (n + 6)).getLast? = some 't' := by
  obtain ⟨rear, whole⟩ := word
  have lengths := congrArg List.length whole
  have front : text.take (n + 6) = text.take n ++ "select".toList := by
    rw [List.take_add, ← whole]
    rfl
  rw [List.length_append, List.length_drop] at lengths
  have six : "select".toList.length = 6 := rfl
  exact ⟨by omega, by rw [front, List.getLast?_append]; rfl⟩

theorem limitRecursion_hinted (dialect : e.dialect = .mysql) {sql : Sql} (n : Nat) {behind : Nat}
    (found : statementSelect? sql.text.toList = some behind) :
    (e.limitRecursion sql n).text.toList = sql.text.toList.take (behind + 6)
      ++ ((recursionHint n).toList ++ sql.text.toList.drop (behind + 6)) := by
  obtain ⟨inside, last⟩ := statementSelect_read found
  have inserted := Sql.inserted_insertAt (Nat.lt_add_left behind (by decide)) inside last
    (clean_recursionHint n)
  simp only [limitRecursion, dialect, found]
  exact inserted.text

/-- A hint stands behind a given `select` exactly if that one is found. -/
theorem limitRecursion_text_iff (dialect : e.dialect = .mysql) {sql : Sql} {front rear : String}
    (text : sql.text = front ++ "select" ++ rear) (m n : Nat) :
    (e.limitRecursion sql m).text = front ++ "select" ++ recursionHint n ++ rear ↔
      m = n ∧ statementSelect? sql.text.toList = some front.toList.length := by
  have whole : sql.text.toList = front.toList ++ ("select".toList ++ rear.toList) := by
    rw [text, String.toList_append, String.toList_append, List.append_assoc]
  have word : "select".toList <+: sql.text.toList.drop front.toList.length := by
    rw [whole, List.drop_left]
    exact List.prefix_append _ _
  have wanted : (front ++ "select" ++ recursionHint n ++ rear).toList
      = sql.text.toList.take (front.toList.length + 6)
        ++ ((recursionHint n).toList ++ sql.text.toList.drop (front.toList.length + 6)) := by
    rw [whole, List.take_length_add_append, List.drop_length_add_append]
    simp only [String.toList_append, List.append_assoc]
    rfl
  rw [← String.toList_inj, wanted]
  cases found : statementSelect? sql.text.toList with
  | none =>
    have same : e.limitRecursion sql m = sql := by simp only [limitRecursion, dialect, found]
    refine iff_of_false (fun marked => ?_) (by simp)
    rw [same] at marked
    have lengths := congrArg List.length marked
    have some : (recursionHint n).toList ≠ [] := fun none => by
      simpa [none] using recursionHint_slash n
    have more := List.length_pos_iff.mpr some
    simp only [List.length_append, List.length_take, List.length_drop] at lengths
    omega
  | some behind =>
    obtain ⟨k, rfl, foundWord⟩ := selectOffset_prefix found
    rw [Nat.zero_add] at found ⊢
    obtain ⟨inside, letter⟩ := getLast?_select word
    obtain ⟨foundInside, foundLetter⟩ := getLast?_select foundWord
    rw [limitRecursion_hinted dialect m found]
    constructor
    · intro marked
      obtain ⟨place, hints⟩ := insert_inj foundInside inside foundLetter letter
        (recursionHint_slash m) (recursionHint_slash n) marked
      exact ⟨recursionHint_inj (String.toList_inj.mp hints), congrArg some (by omega)⟩
    · rintro ⟨rfl, place⟩
      rw [Option.some.inj place]

end Engine

end SqlCompiler
