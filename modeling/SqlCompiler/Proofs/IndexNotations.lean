import SqlCompiler.Proofs.BracketGroups
/-!
# Two notations of an index

An index behind a path is written as a segment of its own, or as a group at the end of the last
segment. An arrow parts a path wherever it stands, and a group is read before the segment that it
stands behind, so either notation has the steps of the path and then the index, or the same error.
-/

namespace SqlCompiler

namespace Text

variable {c : Char} {b rest : List Char}

theorem consFirst_append (c : Char) {pieces : List (List Char)} (filled : pieces ≠ [])
    (more : List (List Char)) : consFirst c (pieces ++ more) = consFirst c pieces ++ more := by
  cases pieces with
  | nil => exact absurd rfl filled
  | cons piece pieces => rfl

theorem splitArrows_ne_nil (text : List Char) : splitArrows text ≠ [] := by
  obtain ⟨first, rest, split, -⟩ := JsonPath.splitArrows_head text
  simp [split]

/-- Where no arrow begins, none comes about by a text that does not begin with its head. -/
theorem no_arrow_append (none : ∀ tail, c = '-' → rest = '>' :: tail → False)
    (apart : b.head? ≠ some '>') : ∀ tail, c = '-' → rest ++ b = '>' :: tail → False := by
  intro tail dash arrow
  cases rest with
  | nil =>
    rw [List.nil_append] at arrow
    exact apart (arrow ▸ rfl)
  | cons d rest =>
    obtain ⟨rfl, -⟩ := List.cons.inj arrow
    exact none rest dash rfl

theorem splitArrows_arrow (a b : List Char) :
    splitArrows (a ++ '-' :: '>' :: b) = splitArrows a ++ splitArrows b := by
  induction a using splitArrows.induct with
  | case1 => rfl
  | case2 rest ih =>
    rw [List.cons_append, List.cons_append, splitArrows, splitArrows, ih]
    rfl
  | case3 c rest other ih =>
    have stays := no_arrow_append (b := '-' :: '>' :: b) other (by simp)
    rw [List.cons_append, splitArrows.eq_3 c _ stays, splitArrows.eq_3 c _ other, ih,
      consFirst_append c (splitArrows_ne_nil rest)]

theorem splitArrows_of_not_mem (free : '>' ∉ b) : splitArrows b = [b] := by
  fun_induction splitArrows b with
  | case1 => rfl
  | case2 rest ih => simp at free
  | case3 c rest other ih =>
    rw [ih (List.not_mem_of_not_mem_cons free)]
    rfl

/-- A text without the head of an arrow belongs to the last piece of the text before it. -/
theorem splitArrows_append (a : List Char) (free : '>' ∉ b) : ∃ front last,
    splitArrows a = front ++ [last] ∧ splitArrows (a ++ b) = front ++ [last ++ b] := by
  induction a using splitArrows.induct with
  | case1 => exact ⟨[], [], rfl, splitArrows_of_not_mem free⟩
  | case2 rest ih =>
    obtain ⟨front, last, own, whole⟩ := ih
    refine ⟨[] :: front, last, by rw [splitArrows, own]; rfl, ?_⟩
    rw [List.cons_append, List.cons_append, splitArrows, whole]
    rfl
  | case3 c rest other ih =>
    obtain ⟨front, last, own, whole⟩ := ih
    have stays := no_arrow_append (b := b) other fun head => free (List.mem_of_mem_head? head)
    rw [List.cons_append, splitArrows.eq_3 c _ stays, splitArrows.eq_3 c _ other, own, whole]
    cases front with
    | nil => exact ⟨[], c :: last, rfl, rfl⟩
    | cons piece front => exact ⟨(c :: piece) :: front, last, rfl, rfl⟩

end Text

namespace JsonPath

variable {path segment token digits : List Char}

theorem splitGroups_of_not_mem (unclosed : ']' ∉ segment) :
    splitGroups segment = (segment, []) := by
  have whole := splitGroups_text segment
  generalize splitGroups segment = read at whole
  obtain ⟨key, tokens⟩ := read
  cases tokens with
  | nil =>
    obtain rfl : key = segment := by simpa [bracketed] using whole
    rfl
  | cons token tokens =>
    refine absurd ?_ unclosed
    rw [← whole]
    simp [bracketed]

theorem bracketed_singleton (token : List Char) :
    bracketed [token] = '[' :: (token ++ [']']) := by
  simp [bracketed]

/-- The step of a group comes after the steps of the segment it stands behind. -/
theorem segmentSteps_group (filled : segment ≠ []) (valid : IsToken token) :
    segmentSteps (segment ++ '[' :: (token ++ [']']))
      = segmentSteps segment ++ [(index? token).map .index] := by
  have read := splitGroups_append segment (List.forall_mem_singleton.mpr valid)
  rw [bracketed_singleton] at read
  rw [segmentSteps, if_neg (by simp), read, segmentSteps, if_neg filled]
  simp

section Digits

variable (some : digits ≠ []) (decimal : Text.allDigits digits = true)

include some decimal

/-- Digits behind an arrow are a segment of one index. -/
theorem steps_arrow : steps (path ++ '-' :: '>' :: digits)
    = allOk ((Text.splitArrows path).flatMap segmentSteps ++ [(index? digits).map .index]) := by
  have own : segmentSteps digits = [(index? digits).map .index] := by
    rw [segmentSteps, if_neg some, splitGroups_of_not_mem (not_mem_of_digits decimal rfl)]
    simp [keyStep, some, decimal]
  rw [steps, Text.splitArrows_arrow, Text.splitArrows_of_not_mem (not_mem_of_digits decimal rfl),
    List.flatMap_append, List.flatMap_singleton, own]

/-- Digits in brackets are a group of the last segment, whatever that segment is. -/
theorem steps_brackets (filled : (Text.splitArrows path).getLast? ≠ Option.some []) :
    steps (path ++ '[' :: (digits ++ [']']))
      = allOk ((Text.splitArrows path).flatMap segmentSteps ++ [(index? digits).map .index]) := by
  have free {c : Char} (other : c.isDigit = false) : c ∉ digits := not_mem_of_digits decimal other
  obtain ⟨front, last, own, whole⟩ :=
    Text.splitArrows_append path (b := '[' :: (digits ++ [']'])) (by simp [free])
  rw [own, List.getLast?_concat] at filled
  have solid : last ≠ [] := fun none => filled (congrArg _ none)
  rw [steps, whole, own, List.flatMap_append, List.flatMap_singleton,
    segmentSteps_group solid ⟨some, free rfl, free rfl⟩, List.flatMap_append,
    List.flatMap_singleton, List.append_assoc]

end Digits

/-- An index in digits may stand behind an arrow or between brackets. Either way the path has the
steps that it has without it, and the index after them; the errors of the path come first. -/
theorem steps_arrow_eq_brackets (filled : (Text.splitArrows path).getLast? ≠ some [])
    (some : digits ≠ []) (decimal : Text.allDigits digits = true) :
    steps (path ++ '-' :: '>' :: digits) = steps (path ++ '[' :: (digits ++ [']'])) ∧
      steps (path ++ '-' :: '>' :: digits) = (do
        let front ← steps path
        if Text.digitsValue digits < maxIndex then
          .ok (front ++ [.index (Text.digitsValue digits)])
        else .error (.invalid (.indexNotNumber (.ofList digits)))) := by
  have arrow := @steps_arrow path digits some decimal
  refine ⟨arrow.trans (steps_brackets some decimal filled).symm, ?_⟩
  rw [arrow, allOk_append, index?_digits some decimal]
  refine congrArg (allOk _ >>= ·) (funext fun front => ?_)
  split <;> rfl

/-- Brackets that make no group, and one group, in a path whose dashes are not all arrows. -/
def strayPath : List Char := "a-[->]b[[0]".toList

/-- A small index with zeros in front, and the least number that is no index. -/
theorem strayPath_notations :
    (Text.splitArrows strayPath).getLast? ≠ some [] ∧
      steps (strayPath ++ "->007".toList) = .ok [.key "a-[", .key "]b[", .index 0, .index 7] ∧
      steps (strayPath ++ "[007]".toList) = .ok [.key "a-[", .key "]b[", .index 0, .index 7] ∧
      steps (strayPath ++ "->18446744073709551616".toList)
        = .error (.invalid (.indexNotNumber "18446744073709551616")) ∧
      steps (strayPath ++ "[18446744073709551616]".toList)
        = .error (.invalid (.indexNotNumber "18446744073709551616")) := by
  have filled : (Text.splitArrows strayPath).getLast? ≠ some [] := by decide
  have small := @steps_arrow_eq_brackets strayPath "007".toList filled (by decide) (by decide)
  have great := @steps_arrow_eq_brackets strayPath "18446744073709551616".toList filled
    (by decide) (by decide)
  have read : steps strayPath = .ok [.key "a-[", .key "]b[", .index 0] := rfl
  rw [read] at small great
  exact ⟨filled, small.2, small.1.symm.trans small.2, great.2, great.1.symm.trans great.2⟩

end JsonPath

end SqlCompiler
