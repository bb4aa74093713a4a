import SqlCompiler.Text.Blank
import SqlCompiler.Text.Scan
/-!
# Aliases in names

A name may carry an alias after the word `as`, in any case, between blanks of ASCII. The leftmost
such separator counts.
-/

namespace SqlCompiler.Name

/-- What follows the word `as` and the blanks after it, at the start of a text. -/
def afterAs? : List Char → Option (List Char)
  | a :: s :: blank :: rest =>
    if (a = 'a' ∨ a = 'A') ∧ (s = 's' ∨ s = 'S') ∧ Text.isSpace blank then
      some (rest.dropWhile Text.isSpace)
    else none
  | _ => none

/-- The text before the leftmost separator and the alias after it. -/
def splitAlias? : List Char → Option (List Char × List Char)
  | [] => none
  | c :: rest =>
    match if Text.isSpace c then afterAs? (rest.dropWhile Text.isSpace) else none with
    | some aliasName => some ([], aliasName)
    | none => (splitAlias? rest).map fun (target, aliasName) => (c :: target, aliasName)

/-- What follows the last ` as ` of a compiled table, or all of it. -/
def referredTo (table : String) : String :=
  String.ofList ((Text.afterLast? " as ".toList table.toList).getD table.toList)

/-- A column name without the table in front of it; the dots of a JSON path do not count. -/
def unqualified (key : String) : String :=
  match Text.cutArrow? key.toList with
  | some (column, path) =>
    match Text.cutLast? '.' column with
    | some (_, name) => String.ofList (name ++ '-' :: '>' :: path)
    | none => key
  | none =>
    match Text.cutLast? '.' key.toList with
    | some (_, name) => String.ofList name
    | none => key

end SqlCompiler.Name
