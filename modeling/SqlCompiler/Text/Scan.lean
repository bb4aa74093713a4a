/-!
# Cutting text

Functions on lists of characters: cutting at arrows and at single characters, doubling a
character, and looking for a text inside another.
-/

namespace SqlCompiler.Text

/-- What follows `lead` in a text that starts with it. -/
def dropLead? : List Char → List Char → Option (List Char)
  | [], text => some text
  | _ :: _, [] => none
  | a :: lead, b :: text => if a = b then dropLead? lead text else none

/-- Whether `part` occurs somewhere in a text. -/
def contains (part : List Char) : List Char → Bool
  | [] => part.isEmpty
  | c :: rest => (dropLead? part (c :: rest)).isSome || contains part rest

/-- What follows the last occurrence of `mark`. -/
def afterLast? (mark : List Char) : List Char → Option (List Char)
  | [] => none
  | c :: rest => (afterLast? mark rest).or (dropLead? mark (c :: rest))

def consFirst (c : Char) : List (List Char) → List (List Char)
  | [] => [[c]]
  | piece :: pieces => (c :: piece) :: pieces

/-- The pieces between the occurrences of `mark`; there is always at least one. -/
def splitOn (mark : Char) : List Char → List (List Char)
  | [] => [[]]
  | c :: rest => if c = mark then [] :: splitOn mark rest else consFirst c (splitOn mark rest)

/-- The text before the last occurrence of `mark` and the text after it. -/
def cutLast? (mark : Char) : List Char → Option (List Char × List Char)
  | [] => none
  | c :: rest =>
    match cutLast? mark rest with
    | some (before, after) => some (c :: before, after)
    | none => if c = mark then some ([], rest) else none

theorem cutLast?_suffix {mark : Char} {text before after : List Char}
    (cut : cutLast? mark text = some (before, after)) : after <:+ text := by
  induction text generalizing before with
  | nil => simp [cutLast?] at cut
  | cons c text ih =>
    rw [cutLast?] at cut
    split at cut
    · next inner =>
      simp only [Option.some.injEq, Prod.mk.injEq] at cut
      obtain ⟨rfl, rfl⟩ := cut
      exact (ih inner).trans (List.suffix_cons c text)
    · split at cut
      · simp only [Option.some.injEq, Prod.mk.injEq] at cut
        obtain ⟨rfl, rfl⟩ := cut
        exact List.suffix_cons c text
      · cases cut

/-- Every occurrence of `mark` written twice. -/
def doubled (mark : Char) : List Char → List Char
  | [] => []
  | c :: rest => if c = mark then c :: c :: doubled mark rest else c :: doubled mark rest

theorem doubled_append (mark : Char) (a b : List Char) :
    doubled mark (a ++ b) = doubled mark a ++ doubled mark b := by
  induction a with
  | nil => rfl
  | cons c a ih => by_cases h : c = mark <;> simp [doubled, h, ih]

theorem doubled_cons_of_ne {mark c : Char} (apart : c ≠ mark) (text : List Char) :
    doubled mark (c :: text) = c :: doubled mark text := by
  rw [doubled, if_neg apart]

theorem mem_doubled {mark c : Char} {text : List Char} : c ∈ doubled mark text ↔ c ∈ text := by
  induction text with
  | nil => rfl
  | cons d text ih =>
    rw [doubled]
    split <;> simp [ih]

theorem head_doubled (mark : Char) (text : List Char) :
    (doubled mark text).head? = text.head? := by
  cases text with
  | nil => rfl
  | cons c text =>
    rw [doubled]
    split <;> rfl

theorem doubled_of_absent {mark : Char} {text : List Char} (h : mark ∉ text) :
    doubled mark text = text := by
  induction text with
  | nil => rfl
  | cons c text ih =>
    rw [List.mem_cons, not_or] at h
    rw [doubled_cons_of_ne (Ne.symm h.1), ih h.2]

/-- Whether the text holds an arrow `->`. -/
def hasArrow : List Char → Bool
  | [] => false
  | '-' :: '>' :: _ => true
  | _ :: rest => hasArrow rest

/-- The text before the first arrow and the text after it. -/
def cutArrow? : List Char → Option (List Char × List Char)
  | [] => none
  | '-' :: '>' :: rest => some ([], rest)
  | c :: rest => (cutArrow? rest).map fun (before, after) => (c :: before, after)

/-- The pieces between the arrows; there is always at least one. -/
def splitArrows : List Char → List (List Char)
  | [] => [[]]
  | '-' :: '>' :: rest => [] :: splitArrows rest
  | c :: rest => consFirst c (splitArrows rest)

/-- Every `->>` written as `->`. -/
def blurArrows : List Char → List Char
  | [] => []
  | '-' :: '>' :: '>' :: rest => '-' :: '>' :: blurArrows rest
  | c :: rest => c :: blurArrows rest

theorem consFirst_ne_nil (c : Char) (pieces : List (List Char)) : consFirst c pieces ≠ [] := by
  cases pieces <;> simp [consFirst]

theorem splitOn_ne_nil (mark : Char) (text : List Char) : splitOn mark text ≠ [] := by
  cases text with
  | nil => simp [splitOn]
  | cons c rest =>
    rw [splitOn]
    split
    · simp
    · exact consFirst_ne_nil _ _

theorem hasArrow_iff {text : List Char} : hasArrow text = true ↔ ['-', '>'] <:+: text := by
  fun_induction hasArrow text with
  | case1 => simp
  | case2 rest => simpa using List.infix_append [] ['-', '>'] rest
  | case3 c rest other ih =>
    rw [ih, List.infix_cons_iff]
    refine ⟨.inr, fun h => h.resolve_left fun h => ?_⟩
    obtain ⟨tail, same⟩ := h
    simp only [List.cons_append, List.nil_append, List.cons.injEq] at same
    exact other tail same.1.symm same.2.symm

theorem cutArrow?_eq_none {text : List Char} (h : hasArrow text = false) :
    cutArrow? text = none := by
  fun_induction hasArrow text with
  | case1 => rfl
  | case2 rest => simp at h
  | case3 c rest other ih =>
    rw [cutArrow?, ih h]
    · rfl
    · exact other

theorem hasArrow_of_infix {part text : List Char} (inside : part <:+: text)
    (h : hasArrow text = false) : hasArrow part = false := by
  refine Bool.eq_false_iff.mpr fun found => ?_
  have arrow := hasArrow_iff.mpr ((hasArrow_iff.mp found).trans inside)
  rw [h] at arrow
  cases arrow

/-- A function on characters, on a string. -/
def onString (f : List Char → List Char) (s : String) : String :=
  String.ofList (f s.toList)

/-- Decimal digits only; true of the empty text. -/
def allDigits (text : List Char) : Bool :=
  text.all fun c => '0' ≤ c && c ≤ '9'

/-- The value of a text of decimal digits. -/
def digitsValue (text : List Char) : Nat :=
  text.foldl (fun value c => 10 * value + (c.toNat - '0'.toNat)) 0

def natural? (text : List Char) : Option Nat :=
  if text.isEmpty || !allDigits text then none else some (digitsValue text)

end SqlCompiler.Text
