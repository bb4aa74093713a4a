import SqlCompiler.Literal
import SqlCompiler.Sql
/-!
# Values in place of placeholders

`positional` reads a statement once from left to right and puts values in place of its question
marks; `named` does so for names behind colons. What is put in is never read again.
-/

namespace SqlCompiler

namespace Substitute

/-- A statement with values in place of its placeholders. Pairs of quotes or question marks, and a
quote behind a backslash, are copied; a question mark inside a string literal is no placeholder,
and one without a value stays. -/
def positional (inLiteral : Bool) (values : List String) : List Char → List Char
  | [] => []
  | '\\' :: '\'' :: rest => '\\' :: '\'' :: positional inLiteral values rest
  | '\'' :: '\'' :: rest => '\'' :: '\'' :: positional inLiteral values rest
  | '?' :: '?' :: rest => '?' :: '?' :: positional inLiteral values rest
  | '\'' :: rest => '\'' :: positional (!inLiteral) values rest
  | '?' :: rest =>
    if inLiteral then '?' :: positional inLiteral values rest
    else match values with
      | [] => '?' :: positional inLiteral [] rest
      | value :: values => value.toList ++ positional inLiteral values rest
  | c :: rest => c :: positional inLiteral values rest

/-- The first of some keys that a text starts with, and its value. -/
def keyAt? (keys : List (List Char × String)) (text : List Char) : Option (List Char × String) :=
  keys.find? fun (key, _) => (Text.dropLead? key text).isSome

/-- A statement with values in place of colons and keys, tried in the given order. Two colons are
copied. `skip` characters of the text belong to a key already replaced. -/
def named (keys : List (List Char × String)) : Nat → List Char → List Char
  | _, [] => []
  | skip + 1, _ :: rest => named keys skip rest
  | 0, ':' :: ':' :: rest => ':' :: ':' :: named keys 0 rest
  | 0, ':' :: rest =>
    match keyAt? keys rest with
    | some (key, value) => value.toList ++ named keys key.length rest
    | none => ':' :: named keys 0 rest
  | 0, c :: rest => c :: named keys 0 rest

/-- Keys without colons in front and without the empty key, the longest first. -/
def sortKeys (keys : List (String × String)) : List (List Char × String) :=
  ((keys.map fun (key, value) => (key.toList.dropWhile (· = ':'), value)).filter
    fun (key, _) => !key.isEmpty).mergeSort
      fun (a, _) (b, _) => (String.ofList b).utf8ByteSize ≤ (String.ofList a).utf8ByteSize

end Substitute

namespace Engine

variable (e : Engine)

def inline (sql : String) (bindings : List Binding) : String :=
  String.ofList (Substitute.positional false (bindings.map e.escape) sql.toList)

def inlineNamed (sql : String) (bindings : List (String × Binding)) : String :=
  let keys := Substitute.sortKeys (bindings.map fun (key, b) => (key, e.escape b))
  String.ofList (Substitute.named keys 0 sql.toList)

end Engine

/-- The text of a statement with each value in its own place. -/
def Sql.inlined (e : Engine) (sql : Sql) : String :=
  sql.pieces.foldr (fun piece rest =>
    (match piece with
      | .plain s => s
      | .slot value => e.escape value
      | .fragment s bindings => e.inline s bindings) ++ rest) ""

end SqlCompiler
