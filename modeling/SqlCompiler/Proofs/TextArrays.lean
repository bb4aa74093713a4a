import SqlCompiler.Proofs.SelectorAgreement
import SqlCompiler.Proofs.StringLiterals
/-!
# Text arrays

A text array lists its items between braces, with commas between them. A quoted item may hold any
text, with a backslash before a character that is meant as it is; digits stand bare. A list of
steps is read back from its array: a quoted item is a key, a bare one an index.
-/

namespace SqlCompiler.JsonPath

open StringLiteral

/-- The text of a quoted item, from behind its opening mark, and what follows the closing one. -/
def quotedItem? : List Char → Option (List Char × List Char)
  | [] => none
  | '"' :: rest => some ([], rest)
  | '\\' :: c :: rest => (quotedItem? rest).map fun (text, rest) => (c :: text, rest)
  | c :: rest => (quotedItem? rest).map fun (text, rest) => (c :: text, rest)

/-- The step of the first item of a text, and what follows the item. -/
def item? : List Char → Option (PathStep × List Char)
  | '"' :: rest => (quotedItem? rest).map fun (text, rest) => (.key (.ofList text), rest)
  | text => (Text.natural? (text.takeWhile Char.isDigit)).map fun i =>
      (.index i, text.dropWhile Char.isDigit)

theorem map_cons_eq_some {c : Char} {item rest : List Char}
    {read : Option (List Char × List Char)}
    (found : (read.map fun (text, rest) => (c :: text, rest)) = some (item, rest)) :
    ∃ inner, read = some (inner, rest) := by
  obtain ⟨⟨inner, behind⟩, inside, same⟩ := Option.map_eq_some_iff.mp found
  obtain rfl := (Prod.mk.inj same).2
  exact ⟨inner, inside⟩

theorem quotedItem?_length {text item rest : List Char}
    (read : quotedItem? text = some (item, rest)) : rest.length < text.length := by
  fun_induction quotedItem? text generalizing item with
  | case1 => cases read
  | case2 text =>
    obtain rfl := (Prod.mk.inj (Option.some.inj read)).2
    exact Nat.lt_succ_self _
  | case3 c text ih =>
    obtain ⟨inner, inside⟩ := map_cons_eq_some read
    have shorter := ih inside
    simp only [List.length_cons]
    omega
  | case4 c text _ _ ih =>
    obtain ⟨inner, inside⟩ := map_cons_eq_some read
    have shorter := ih inside
    simp only [List.length_cons]
    omega

theorem item?_length {text rest : List Char} {step : PathStep}
    (read : item? text = some (step, rest)) : rest.length < text.length := by
  unfold item? at read
  split at read
  · next text =>
    obtain ⟨⟨inner, behind⟩, found, same⟩ := Option.map_eq_some_iff.mp read
    obtain rfl := (Prod.mk.inj same).2
    have shorter := quotedItem?_length found
    simp only [List.length_cons]
    omega
  · obtain ⟨i, digits, same⟩ := Option.map_eq_some_iff.mp read
    obtain rfl := (Prod.mk.inj same).2
    have parts : (text.takeWhile Char.isDigit ++ text.dropWhile Char.isDigit).length
        = text.length :=
      congrArg List.length List.takeWhile_append_dropWhile
    have some : text.takeWhile Char.isDigit ≠ [] := by
      intro none
      rw [none] at digits
      cases digits
    have filled := List.length_pos_iff.mpr some
    rw [List.length_append] at parts
    omega

/-- The steps of the items up to the closing brace. -/
def items? (text : List Char) : Option (List PathStep) :=
  match _ : item? text with
  | some (step, ',' :: rest) => (items? rest).map (step :: ·)
  | some (step, ['\x7d']) => some [step]
  | _ => none
termination_by text.length
decreasing_by
  have shorter := item?_length ‹item? text = _›
  simp only [List.length_cons] at shorter
  omega

/-- The steps of a text array. -/
def textArray? : List Char → Option (List PathStep)
  | ['\x7b', '\x7d'] => some []
  | '\x7b' :: rest => items? rest
  | _ => none

theorem quotedItem?_written (key rest : List Char) :
    quotedItem? ((key.flatMap fun c => if c = '\\' ∨ c = '"' then ['\\', c] else [c])
      ++ '"' :: rest) = some (key, rest) := by
  induction key with
  | nil => rfl
  | cons c key ih =>
    rw [List.flatMap_cons, List.append_assoc]
    by_cases special : c = '\\' ∨ c = '"'
    · rw [if_pos special, List.cons_append, List.cons_append, List.nil_append, quotedItem?, ih]
      rfl
    · rw [not_or] at special
      rw [if_neg (not_or.mpr special), List.singleton_append, quotedItem?, ih]
      · rfl
      · exact special.2
      · exact fun _ _ backslash => absurd backslash special.1

theorem item?_written (step : PathStep) {c : Char} (mark : c.isDigit = false) (rest : List Char) :
    item? (arrayItem step ++ c :: rest) = some (step, c :: rest) := by
  cases step with
  | key k =>
    rw [arrayItem, List.cons_append, List.append_assoc, List.singleton_append, item?,
      quotedItem?_written]
    simp
  | index i =>
    have digits : ∀ c ∈ natDigits i, c.isDigit = true := isDigit_of_mem_natDigits
    have bare : ∀ behind, natDigits i ++ c :: rest = '"' :: behind → False := by
      intro behind same
      cases text : natDigits i with
      | nil => exact Nat.toDigits_ne_nil text
      | cons d others =>
        rw [text] at same
        obtain rfl := (List.cons.inj same).1
        exact not_mem_natDigits rfl i (text ▸ List.mem_cons_self)
    rw [arrayItem, item?.eq_2 _ bare, List.takeWhile_append_of_pos digits,
      List.dropWhile_append_of_pos digits]
    simp [mark, natural?_natDigits]

theorem items?_written (first : PathStep) (others : List PathStep) :
    items? ([','].intercalate ((first :: others).map arrayItem) ++ ['\x7d'])
      = some (first :: others) := by
  induction others generalizing first with
  | nil =>
    have read := item?_written first (c := '\x7d') rfl []
    rw [List.map_singleton, List.intercalate_singleton, items?, read]
    rfl
  | cons next others ih =>
    have text : [','].intercalate ((first :: next :: others).map arrayItem) ++ ['\x7d'] =
        arrayItem first ++
          ',' :: ([','].intercalate ((next :: others).map arrayItem) ++ ['\x7d']) := by
      rw [List.map_cons, List.map_cons, List.intercalate_cons_cons]
      simp
    have read := item?_written first (c := ',') rfl
      ([','].intercalate ((next :: others).map arrayItem) ++ ['\x7d'])
    rw [text, items?, read]
    exact congrArg (Option.map (first :: ·)) (ih next)

/-- The items of a list of steps between braces. -/
def arrayText (steps : List PathStep) : List Char :=
  '\x7b' :: ([','].intercalate (steps.map arrayItem) ++ ['\x7d'])

theorem textArray?_written (steps : List PathStep) : textArray? (arrayText steps) = some steps := by
  cases steps with
  | nil => rfl
  | cons first others =>
    rw [arrayText, textArray?.eq_2]
    · exact items?_written first others
    · intro closed
      have read := items?_written first others
      have none : item? ['\x7d'] = none := rfl
      rw [closed, items?, none] at read
      cases read

theorem arrayLiteral_toList (steps : List PathStep) :
    (arrayLiteral steps).toList = '\'' :: (Text.doubled '\'' (arrayText steps) ++ ['\'']) := by
  rw [arrayLiteral, String.toList_ofList, arrayText, Text.doubled_cons_of_ne (by decide),
    Text.doubled_append]
  simp [Text.doubled]

/-- A text array is a closed literal from which its steps are read, keys as keys and indexes as
indexes; so different lists of steps have different arrays. -/
theorem arrayLiteral_read :
    (∀ steps, ∃ body, (arrayLiteral steps).toList = '\'' :: (body ++ ['\'']) ∧ EvenRuns body ∧
      textArray? (undoubled '\'' body) = some steps) ∧
    Function.Injective arrayLiteral := by
  have read (steps : List PathStep) :
      textArray? (undoubled '\'' (Text.doubled '\'' (arrayText steps))) = some steps := by
    rw [undoubled_doubled, textArray?_written]
  constructor
  · intro steps
    exact ⟨_, arrayLiteral_toList steps, (paired_doubled _).evenRuns, read steps⟩
  · intro s t same
    have texts := congrArg String.toList same
    rw [arrayLiteral_toList, arrayLiteral_toList, List.cons.injEq,
      List.append_cancel_right_eq] at texts
    have found := read s
    rw [texts.2, read t] at found
    exact (Option.some.inj found).symm

example : arrayLiteral [.key "it's", .index 0] = "'\x7b\"it''s\",0\x7d'" := by decide +kernel

end SqlCompiler.JsonPath
