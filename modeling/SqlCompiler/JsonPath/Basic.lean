import SqlCompiler.CompileError
import SqlCompiler.JsonPath.Groups
import SqlCompiler.Number.Decimal
/-!
# Paths of JSON updates

A path is a list of keys and indexes. In text its segments are joined by arrows; digits alone are
an index, and so is what stands in the brackets at the end of a segment.
-/

namespace SqlCompiler

inductive PathStep where
  | key (k : String)
  | index (i : Nat)
deriving DecidableEq, Repr

namespace PathStep

/-- As in `"name"` and `[3]`. -/
def text : PathStep → String
  | key k => "\"" ++ k ++ "\""
  | index i => "[" ++ natText i ++ "]"

end PathStep

namespace JsonPath

/-- Indexes are below 2^64. -/
def maxIndex : Nat := UInt64.size

/-- The index that a token writes: digits, after a plus sign if any. -/
def index? (token : List Char) : Except CompileError Nat :=
  let digits := match token with
    | '+' :: rest => rest
    | _ => token
  match Text.natural? digits with
  | some i => if i < maxIndex then .ok i else .error (.invalid (.indexNotNumber (.ofList token)))
  | none =>
    if token.head? = some '-' then .error (.invalid (.negativeIndex (.ofList token)))
    else .error (.invalid (.indexNotNumber (.ofList token)))

/-- The step of a key, none for an empty one. -/
def keyStep (key : List Char) : List (Except CompileError PathStep) :=
  if key = [] then []
  else if Text.allDigits key then [(index? key).map .index]
  else [.ok (.key (.ofList key))]

/-- The steps of one segment. -/
def segmentSteps (segment : List Char) : List (Except CompileError PathStep) :=
  if segment = [] then [.error (.invalid .emptyPathSegment)]
  else
    let (key, tokens) := splitGroups segment
    keyStep key ++ tokens.map fun token => (index? token).map .index

/-- The steps of a path; the first fault from the left is its error. -/
def steps (path : List Char) : Except CompileError (List PathStep) :=
  allOk ((Text.splitArrows path).flatMap segmentSteps)

end JsonPath

end SqlCompiler
