import SqlCompiler.Proofs.AliasSeparators
import SqlCompiler.Proofs.SelectorAgreement
/-!
# Groups at the end of a segment

The groups of a segment are read from its end, one character at a time. They are its longest end
that consists of groups; read forwards, from each opening bracket to the next closing one, this end
has the same tokens.
-/

namespace SqlCompiler.JsonPath

/-- What may stand between the brackets of a group. -/
structure IsToken (token : List Char) : Prop where
  filled : token ≠ []
  unopened : '[' ∉ token
  unclosed : ']' ∉ token

/-- A text that consists of groups. -/
def IsGroups (text : List Char) : Prop :=
  ∃ tokens, (∀ token ∈ tokens, IsToken token) ∧ text = bracketed tokens

/-- The tokens of a text of groups, read forwards: the text is cut at its closing brackets, and
what begins with an opening one is a token behind it. -/
def tokensIn (groups : List Char) : List (List Char) :=
  (Text.splitOn ']' groups).filterMap (Text.dropLead? ['['])

/-- A segment is cut before the longest end that consists of groups. -/
structure Grouped (segment key : List Char) (tokens : List (List Char)) : Prop where
  whole : key ++ bracketed tokens = segment
  groups : ∀ token ∈ tokens, IsToken token
  longest : ∀ rear, rear <:+ segment → IsGroups rear → rear <:+ bracketed tokens

variable {segment token : List Char} {tokens : List (List Char)}

theorem bracketed_append (a b : List (List Char)) :
    bracketed (a ++ b) = bracketed a ++ bracketed b :=
  List.flatMap_append

/-- The end of a segment with groups behind it. -/
def SegmentEnd.before (more : List (List Char)) : SegmentEnd → SegmentEnd
  | groups tokens => groups (tokens ++ more)
  | inside token tokens => inside token (tokens ++ more)
  | key text tokens => key text (tokens ++ more)

theorem push_before (c : Char) (rear : SegmentEnd) (more : List (List Char)) :
    (rear.before more).push c = (rear.push c).before more := by
  cases rear with
  | groups tokens =>
    simp only [SegmentEnd.before, SegmentEnd.push]
    split <;> rfl
  | inside token tokens =>
    simp only [SegmentEnd.before, SegmentEnd.push]
    split
    · rfl
    · split <;> rfl
  | key text tokens => rfl

theorem foldr_before (segment : List Char) (more : List (List Char)) :
    segment.foldr SegmentEnd.push (.groups more)
      = (segment.foldr SegmentEnd.push (.groups [])).before more := by
  induction segment with
  | nil => rfl
  | cons c segment ih => rw [List.foldr_cons, List.foldr_cons, ih, push_before]

theorem foldr_inside (free : '[' ∉ token ∧ ']' ∉ token) :
    token.foldr SegmentEnd.push (.inside [] tokens) = .inside token tokens := by
  induction token with
  | nil => rfl
  | cons c token ih =>
    simp only [List.mem_cons, not_or] at free
    obtain ⟨⟨opening, unopened⟩, closing, unclosed⟩ := free
    rw [List.foldr_cons, ih ⟨unopened, unclosed⟩, SegmentEnd.push,
      if_neg (by simp [Ne.symm opening]), if_neg (by simp [Ne.symm opening, Ne.symm closing])]

theorem foldr_bracketed (valid : ∀ token ∈ tokens, IsToken token) :
    (bracketed tokens).foldr SegmentEnd.push (.groups []) = .groups tokens := by
  induction tokens with
  | nil => rfl
  | cons token tokens ih =>
    obtain ⟨own, others⟩ := List.forall_mem_cons.mp valid
    have group : bracketed (token :: tokens) = '[' :: (token ++ ']' :: bracketed tokens) := by
      simp [bracketed]
    rw [group, List.foldr_cons, List.foldr_append, List.foldr_cons, ih others]
    have closed : (SegmentEnd.groups tokens).push ']' = .inside [] tokens := rfl
    rw [closed, foldr_inside ⟨own.unopened, own.unclosed⟩, SegmentEnd.push,
      if_pos ⟨rfl, own.filled⟩]

/-- Groups behind a segment are read as groups, and the segment as it is read alone. -/
theorem splitGroups_append (segment : List Char) (valid : ∀ token ∈ tokens, IsToken token) :
    splitGroups (segment ++ bracketed tokens)
      = ((splitGroups segment).1, (splitGroups segment).2 ++ tokens) := by
  rw [splitGroups, List.foldr_append, foldr_bracketed valid, foldr_before, splitGroups]
  cases segment.foldr SegmentEnd.push (.groups []) <;> rfl

/-- The tokens read so far; a token that is not opened yet is free of brackets as well. -/
def SegmentEnd.Valid : SegmentEnd → Prop
  | groups tokens => ∀ token ∈ tokens, IsToken token
  | inside token tokens => ('[' ∉ token ∧ ']' ∉ token) ∧ ∀ token ∈ tokens, IsToken token
  | key _ tokens => ∀ token ∈ tokens, IsToken token

theorem valid_push (c : Char) {rear : SegmentEnd} (valid : rear.Valid) : (rear.push c).Valid := by
  cases rear with
  | groups tokens =>
    rw [SegmentEnd.push]
    split
    · exact ⟨by simp, valid⟩
    · exact valid
  | inside token tokens =>
    obtain ⟨free, others⟩ := valid
    rw [SegmentEnd.push]
    split
    · next opens => exact List.forall_mem_cons.mpr ⟨⟨opens.2, free.1, free.2⟩, others⟩
    · split
      · exact others
      · next plain =>
        rw [not_or] at plain
        exact ⟨by simp [free, Ne.symm plain.1, Ne.symm plain.2], others⟩
  | key text tokens => exact valid

theorem splitGroups_tokens (segment : List Char) :
    ∀ token ∈ (splitGroups segment).2, IsToken token := by
  have valid : (segment.foldr SegmentEnd.push (.groups [])).Valid := by
    induction segment with
    | nil => exact List.forall_mem_nil _
    | cons c segment ih => exact valid_push c ih
  rw [splitGroups]
  cases rear : segment.foldr SegmentEnd.push (.groups []) <;> rw [rear] at valid
  · exact valid
  · exact valid.2
  · exact valid

/-- Groups read forwards are the groups that were written. -/
theorem tokensIn_bracketed (valid : ∀ token ∈ tokens, IsToken token) :
    tokensIn (bracketed tokens) = tokens := by
  have pieces : Text.splitOn ']' (bracketed tokens) = tokens.map ('[' :: ·) ++ [[]] := by
    refine Text.splitOn_eq_iff.mpr ⟨by simp, ?_, ?_⟩
    · intro piece member
      rcases List.mem_append.mp member with member | last
      · obtain ⟨token, there, rfl⟩ := List.mem_map.mp member
        simpa using (valid token there).unclosed
      · simp [List.mem_singleton.mp last]
    · induction tokens with
      | nil => rfl
      | cons token tokens ih =>
        obtain ⟨-, others⟩ := List.forall_mem_cons.mp valid
        rw [List.map_cons, List.cons_append, List.intercalate_cons_of_ne_nil (by simp), ih others]
        simp [bracketed]
  rw [tokensIn, pieces]
  simp [List.filterMap_append, List.filterMap_map, Function.comp_def, Text.dropLead?]

theorem splitGroups_grouped (segment : List Char) :
    Grouped segment (splitGroups segment).1 (splitGroups segment).2 where
  whole := splitGroups_text segment
  groups := splitGroups_tokens segment
  longest := by
    rintro rear ⟨front, rfl⟩ ⟨more, valid, rfl⟩
    rw [splitGroups_append front valid, bracketed_append]
    exact List.suffix_append _ _

theorem splitGroups_eq_iff {key : List Char} :
    splitGroups segment = (key, tokens) ↔ Grouped segment key tokens := by
  have own := splitGroups_grouped segment
  constructor
  · intro read
    rwa [read] at own
  · intro cut
    have same : bracketed (splitGroups segment).2 = bracketed tokens := by
      have within := cut.longest _ ⟨_, own.whole⟩ ⟨_, own.groups, rfl⟩
      have around := own.longest _ ⟨_, cut.whole⟩ ⟨_, cut.groups, rfl⟩
      exact within.eq_of_length (Nat.le_antisymm within.length_le around.length_le)
    have read := congrArg tokensIn same
    rw [tokensIn_bracketed own.groups, tokensIn_bracketed cut.groups] at read
    have front := own.whole.trans cut.whole.symm
    rw [same, List.append_left_inj] at front
    exact Prod.ext front read

/-- A segment is its key and the longest end of it that consists of groups, whose tokens are read
alike from behind and forwards. -/
theorem splitGroups_longest (segment : List Char) :
    (∀ key tokens, splitGroups segment = (key, tokens) ↔ Grouped segment key tokens) ∧
      tokensIn (bracketed (splitGroups segment).2) = (splitGroups segment).2 :=
  ⟨fun _ _ => splitGroups_eq_iff, tokensIn_bracketed (splitGroups_tokens segment)⟩

/-- An empty group and a bracket that is not closed end the reading. -/
example : splitGroups "tags[][0][b]".toList = ("tags[]".toList, ["0".toList, "b".toList]) ∧
    splitGroups "tags[0][[1]".toList = ("tags[0][".toList, ["1".toList]) := by
  decide

end SqlCompiler.JsonPath
