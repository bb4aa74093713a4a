import SqlCompiler.JsonPath.Basic
/-!
# Path literals

A path as an SQL string literal, in three forms: the text of a path for reading, a list of steps
for writing, and a list of steps as a Postgres text array.
-/

namespace SqlCompiler.JsonPath

/-- Quotes written twice, without the backslashes before them. `pending` backslashes stand just
before the text. -/
def escapeQuotes (pending : Nat) : List Char → List Char
  | [] => List.replicate pending '\\'
  | '\\' :: rest => escapeQuotes (pending + 1) rest
  | '\'' :: rest => '\'' :: '\'' :: escapeQuotes 0 rest
  | c :: rest => List.replicate pending '\\' ++ c :: escapeQuotes 0 rest

/-- A segment with its key in double quotes. A segment of groups alone has no key. -/
def quotedSegment (segment : List Char) : List Char :=
  match splitGroups segment with
  | (_, []) => '"' :: (segment ++ ['"'])
  | ([], tokens) => bracketed tokens
  | (key, tokens) => '"' :: (key ++ '"' :: bracketed tokens)

def readLiteral (path : List Char) : List Char :=
  let body := ['.'].intercalate ((Text.splitArrows (escapeQuotes 0 path)).map quotedSegment)
  let dot := if body.head? = some '[' then [] else ['.']
  '\'' :: '$' :: (dot ++ body ++ ['\''])

/-- A step after the steps before it. -/
def stepText (step : PathStep) : List Char :=
  let text := Text.doubled '\'' step.text.toList
  match step with
  | .key _ => '.' :: text
  | .index _ => text

/-- The inside of the literal of a list of steps. -/
def stepsText (steps : List PathStep) : List Char :=
  '$' :: steps.flatMap stepText

def writeLiteral (steps : List PathStep) : String :=
  String.ofList ('\'' :: (stepsText steps ++ ['\'']))

/-- The literal for strict mode, in which a missing element is an error. -/
def strictLiteral (steps : List PathStep) : String :=
  String.ofList ("'strict ".toList ++ stepsText steps ++ ['\''])

/-- An item of a text array; keys are quoted, with backslashes before quotes and backslashes. -/
def arrayItem : PathStep → List Char
  | .key k =>
    '"' :: ((k.toList.flatMap fun c => if c = '\\' ∨ c = '"' then ['\\', c] else [c]) ++ ['"'])
  | .index i => natDigits i

def arrayLiteral (steps : List PathStep) : String :=
  let items := [','].intercalate (steps.map arrayItem)
  String.ofList ('\'' :: '\x7b' :: (Text.doubled '\'' items ++ ['\x7d', '\'']))

end SqlCompiler.JsonPath
