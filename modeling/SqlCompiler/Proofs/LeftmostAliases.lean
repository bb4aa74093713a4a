import SqlCompiler.Proofs.AliasSeparators
import SqlCompiler.Proofs.Octets
/-!
# Names cut at their first separator

A name is cut around the word of its first separator, with all blanks on either side of the word.
What stands before the word holds no separator. A search among the octets of a name finds the same
cut: a separator is ASCII, so its octets stand between those of whole characters.
-/

namespace SqlCompiler

namespace Name

open Text

variable {name target aliasName before word behind text rest : List Char}

/-- One blank or more, and nothing else. -/
structure IsBlanks (text : List Char) : Prop where
  filled : text ≠ []
  blank : ∀ c ∈ text, isSpace c = true

/-- The word `as`, in any case of its letters. -/
def IsAs (word : List Char) : Prop :=
  ∃ a s, word = [a, s] ∧ (a = 'a' ∨ a = 'A') ∧ (s = 's' ∨ s = 'S')

/-- A name in five parts: a word `as` between blanks, of which none are left outside, behind a
target that holds no separator, nor does it with the blanks before the word. -/
structure Cut (name target before word behind aliasName : List Char) : Prop where
  whole : name = target ++ (before ++ (word ++ (behind ++ aliasName)))
  front : IsBlanks before
  isAs : IsAs word
  rear : IsBlanks behind
  opening : target.getLast?.all fun c => !isSpace c
  closing : aliasName.head?.all fun c => !isSpace c
  clear : Unparted (target ++ before)

theorem separator_iff : Separator text ↔ ∃ before word behind,
    IsBlanks before ∧ IsAs word ∧ IsBlanks behind ∧ text = before ++ (word ++ behind) := by
  constructor
  · rintro @⟨before, behind, a, s, some, blanks, first, second, more, others⟩
    exact ⟨before, [a, s], behind, ⟨some, blanks⟩, ⟨a, s, rfl, first, second⟩, ⟨more, others⟩, rfl⟩
  · rintro ⟨before, word, behind, front, ⟨a, s, rfl, first, second⟩, rear, rfl⟩
    exact .mk front.filled front.blank first second rear.filled rear.blank

/-- The word of a separator is found in no blanks. -/
theorem Separator.not_infix_blanks (separator : Separator text) (blanks : IsBlanks before) :
    ¬ text <:+: before := by
  intro inside
  obtain @⟨front, rear, a, s, -, -, letter, -, -, -⟩ := separator
  have blank := blanks.blank a (inside.subset (by simp))
  rw [isSpace_of_letter (letter.imp_right .inl)] at blank
  cases blank

theorem Aliased.exists_cut (h : Aliased name target aliasName) :
    ∃ before word behind, Cut name target before word behind aliasName := by
  obtain ⟨⟨separator, own, parted⟩, whole, first⟩ := h
  obtain ⟨before, word, behind, front, isAs, rear, rfl⟩ := separator_iff.mp own
  have parts : name = target ++ (before ++ (word ++ (behind ++ aliasName))) := by
    simpa using parted
  refine ⟨before, word, behind, parts, front, isAs, rear, ?_, whole, ?_⟩
  · cases last : target.getLast? with
    | none => rfl
    | some c =>
      obtain ⟨start, rfl⟩ := List.getLast?_eq_some_iff.mp last
      cases blank : isSpace c with
      | false =>
        rw [Option.all_some, blank]
        rfl
      | true =>
        -- With this blank the separator begins earlier.
        have longer : Separator ((c :: before) ++ (word ++ behind)) := separator_iff.mpr
          ⟨_, word, behind, ⟨List.cons_ne_nil _ _, List.forall_mem_cons.mpr ⟨blank, front.blank⟩⟩,
            isAs, rear, rfl⟩
        have early := first start _ aliasName longer (by simpa using parts)
        rw [List.length_append, List.length_singleton] at early
        omega
  · rintro separator other ⟨start, stop, same⟩
    have early := first start separator (stop ++ (word ++ (behind ++ aliasName))) other <| by
      rw [parts, ← List.append_assoc target, ← same]
      simp
    have start' : start <+: target ++ before := ⟨separator ++ stop, by simpa using same⟩
    obtain ⟨more, rfl⟩ := List.prefix_of_prefix_length_le (List.prefix_append _ _) start' early
    rw [List.append_assoc, List.append_assoc, List.append_right_inj] at same
    exact other.not_infix_blanks front ⟨more, stop, by simpa using same⟩

/-- A separator that begins in a text which ends with a letter, with blanks behind it, comes to an
end within the two. -/
theorem Separator.ends_within {c : Char} {start more : List Char} (separator : Separator text)
    (blanks : IsBlanks before) (letter : isSpace c = false)
    (same : start ++ c :: (before ++ more) = text ++ rest) :
    ∃ separator, Separator separator ∧ separator <+: start ++ c :: before := by
  obtain @⟨front, rear, a, s, some, blank, first, second, filled, others⟩ := separator
  obtain ⟨b, rear, rfl⟩ := List.exists_cons_of_ne_nil filled
  obtain ⟨d, before, rfl⟩ := List.exists_cons_of_ne_nil blanks.filled
  have short : Separator (front ++ a :: s :: [b]) := .mk some blank first second
    (List.cons_ne_nil _ _) (List.forall_mem_singleton.mpr (others b List.mem_cons_self))
  have behind : isSpace b = true := others b List.mem_cons_self
  have apart : s ≠ d := by
    rintro rfl
    have blank := blanks.blank s List.mem_cons_self
    rw [isSpace_of_letter (.inr (.inr second))] at blank
    cases blank
  rw [List.append_assoc] at same
  rcases List.append_eq_append_iff.mp same with ⟨between, rfl, later⟩ | ⟨between, rfl, later⟩
  · cases between with
    | nil => exact absurd (List.cons.inj (List.cons.inj later).2).1.symm apart
    | cons e between =>
      obtain ⟨rfl, -⟩ := List.cons.inj later
      rw [blank c (by simp)] at letter
      cases letter
  · refine ⟨_, short, ?_⟩
    match between with
    | [] => exact absurd (List.cons.inj (List.cons.inj later).2).1 apart
    | [e] =>
      simp only [List.cons_append, List.nil_append, List.cons.injEq] at later
      obtain ⟨rfl, rfl, rfl, -⟩ := later
      exact ⟨before, by simp⟩
    | [e, f] =>
      simp only [List.cons_append, List.nil_append, List.cons.injEq] at later
      obtain ⟨-, -, rfl, -⟩ := later
      rw [behind] at letter
      cases letter
    | e :: f :: g :: between =>
      simp only [List.cons_append, List.cons.injEq] at later
      obtain ⟨rfl, rfl, rfl, -⟩ := later
      exact ⟨between ++ c :: d :: before, by simp⟩

theorem Cut.aliased (cut : Cut name target before word behind aliasName) :
    Aliased name target aliasName where
  parted := ⟨_, separator_iff.mpr ⟨before, word, behind, cut.front, cut.isAs, cut.rear, rfl⟩,
    by simpa using cut.whole⟩
  whole := cut.closing
  first := by
    intro front separator rear other parted
    refine Nat.le_of_not_lt fun early => ?_
    obtain ⟨later, rfl⟩ : front <+: target := List.prefix_of_prefix_length_le
      ⟨_, parted.symm⟩ ⟨_, cut.whole.symm⟩ (Nat.le_of_lt early)
    have filled : later ≠ [] := by
      rintro rfl
      simp at early
    obtain ⟨start, c, rfl⟩ : ∃ start c, later = start ++ [c] :=
      ⟨_, _, (List.dropLast_concat_getLast filled).symm⟩
    have letter : isSpace c = false := by
      have solid := cut.opening
      rw [← List.append_assoc, List.getLast?_concat, Option.all_some] at solid
      simpa using solid
    have same : start ++ c :: (before ++ (word ++ (behind ++ aliasName))) = separator ++ rear := by
      have whole := parted.symm.trans cut.whole
      simpa using whole.symm
    obtain ⟨short, own, rest, within⟩ := other.ends_within cut.front letter same
    exact cut.clear short own ⟨front, rest, by simp [within]⟩

theorem splitAlias?_eq_some_iff_cut : splitAlias? name = some (target, aliasName) ↔
    ∃ before word behind, Cut name target before word behind aliasName := by
  rw [splitAlias?_eq_some_iff]
  constructor
  · exact Aliased.exists_cut
  · rintro ⟨before, word, behind, cut⟩
    exact cut.aliased

theorem Separator.ascii (separator : Separator text) : ∀ c ∈ text, c.toNat < 0x80 := by
  obtain @⟨before, behind, a, s, -, front, first, second, -, rear⟩ := separator
  have blank {c : Char} (space : isSpace c = true) : c.toNat < 0x80 := by
    simp only [isSpace, Bool.or_eq_true, beq_iff_eq] at space
    rcases space with (((rfl | rfl) | rfl) | rfl) | rfl <;> decide
  intro c member
  simp only [List.mem_append, List.mem_cons] at member
  rcases member with inside | rfl | rfl | inside
  · exact blank (front c inside)
  · rcases first with rfl | rfl <;> decide
  · rcases second with rfl | rfl <;> decide
  · exact blank (rear c inside)

/-- A name has an alias if it holds a separator, and is then cut around the word of the first one.
The octets of a separator stand among those of the name only where the name holds that separator
itself, between whole characters, and nowhere before the one at which it is cut. -/
theorem splitAlias?_leftmost (name : List Char) :
    (splitAlias? name = none ↔ Unparted name) ∧
      (∀ target aliasName, splitAlias? name = some (target, aliasName) ↔
        ∃ before word behind, Cut name target before word behind aliasName) ∧
      ∀ front separator rear, Separator separator →
        utf8 name = front ++ (utf8 separator ++ rear) →
          ∃ before behind, name = before ++ (separator ++ behind) ∧ front = utf8 before ∧
            rear = utf8 behind ∧ ∀ target aliasName,
              splitAlias? name = some (target, aliasName) → target <+: before := by
  refine ⟨splitAlias?_eq_none_iff, fun _ _ => splitAlias?_eq_some_iff_cut, ?_⟩
  intro front separator rear own octets
  obtain ⟨before, behind, rfl, rfl, rfl⟩ := utf8_cut_ascii own.ne_nil own.ascii octets
  refine ⟨before, behind, rfl, rfl, rfl, fun target aliasName found => ?_⟩
  have leads := splitAlias?_prefix found
  have early := (splitAlias?_eq_some_iff.mp found).first before separator behind own rfl
  exact List.prefix_of_prefix_length_le leads (List.prefix_append _ _) early

/-- A name with two separators between words beyond ASCII, and one in which every word `as` lacks a
blank on one side. -/
theorem agedName_cut :
    (∃ before word behind, Cut "âge AS \t années as b".toList "âge".toList before word behind
      "années as b".toList) ∧
      Unparted "as basic alias as".toList :=
  ⟨((splitAlias?_leftmost _).2.1 _ _).mp (by decide), (splitAlias?_leftmost _).1.mp (by decide)⟩

end Name

end SqlCompiler
