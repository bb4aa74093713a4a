import SqlCompiler.Binding
import SqlCompiler.JsonPath.Literal
import SqlCompiler.Name.Quoted
/-!
# Columns and JSON selectors

A column name with an arrow in it, such as `meta->tags[0]`, selects a value inside a JSON column.
Each dialect has its own expression for it; the generic one has none.
-/

namespace SqlCompiler

namespace JsonPath

/-- The integer that a text writes in decimal, with or without a sign, if 64 bits hold it. -/
def integer? (text : List Char) : Option Int :=
  let (negative, digits) := Binary64.cutSign text
  match Text.natural? digits with
  | none => none
  | some n =>
    let i : Int := if negative then -(n : Int) else n
    if Binding.fitsInt i then some i else none

/-- A text between single quotes, with its own written twice. -/
def quotedKey (text : List Char) : List Char :=
  '\'' :: (Text.doubled '\'' text ++ ['\''])

/-- The keys and indexes of a path, as they stand between the arrows of Postgres. -/
def attributes (path : List Char) : List (List Char) :=
  ((Text.splitArrows path).flatMap fun segment =>
    let (key, tokens) := splitGroups segment
    if key = [] then tokens else key :: tokens).map fun item =>
      if (integer? item).isSome then item else quotedKey item

def splitLast (selector : List Char) : List (List Char) × List Char :=
  let segments := Text.splitArrows selector
  let before := segments.dropLast
  (if before = [[]] then [] else before, segments.getLastD [])

/-- Segments with arrows between them. -/
def arrowed (segments : List (List Char)) : String :=
  String.ofList (['-', '>'].intercalate segments)

/-- A segment that ends in one group of brackets: the text before it and the token inside. -/
def lastGroup? (segment : List Char) : Option (List Char × List Char) :=
  if segment.getLast? = some ']' then Text.cutLast? '[' segment.dropLast else none

end JsonPath

namespace Engine

variable (e : Engine)

/-- The field of a selector, and its path as a further argument of a function. -/
def fieldAndPath (selector : String) : String × String :=
  match Text.cutArrow? selector.toList with
  | some (field, path) => (e.wrapField field, ", " ++ String.ofList (JsonPath.readLiteral path))
  | none => (e.wrapField selector.toList, "")

/-- A selector as a chain of arrows; the last one takes the value out as text. -/
def arrowSelector (selector : String) : String :=
  let (field, path) := (Text.cutArrow? selector.toList).getD (selector.toList, [])
  let attributes := JsonPath.attributes path
  match attributes.getLast? with
  | none => e.wrapField field
  | some last =>
    e.wrapField field
      ++ String.ofList (attributes.dropLast.flatMap fun item => '-' :: '>' :: item)
      ++ "->>" ++ String.ofList last

/-- The expression for the value that a selector selects. -/
def jsonSelector (selector : String) : Except CompileError String :=
  let (field, path) := e.fieldAndPath selector
  match e.dialect with
  | .generic => .error (.unsupported .jsonSelectors)
  | .mysql => .ok ("json_unquote(json_extract(" ++ field ++ path ++ "))")
  | .postgres => .ok (e.arrowSelector selector)
  | .sqlite => .ok ("json_extract(" ++ field ++ path ++ ")")
  | .sqlserver => .ok ("json_value(" ++ field ++ path ++ ")")

/-- A column name without alias. -/
def wrapUnaliased (column : List Char) : Except CompileError String :=
  if Text.hasArrow column then e.jsonSelector (String.ofList column)
  else .ok (String.ofList (e.plainColumn column))

/-- A column name; an alias is quoted, and gets the prefix of tables if `prefixed`. -/
def wrapAliased (name : String) (prefixed : Bool) : Except CompileError String :=
  match Name.splitAlias? name.toList with
  | some (column, aliasName) =>
    (e.wrapUnaliased column).map fun column =>
      String.ofList <| Name.aliased column.toList
        (if prefixed then e.quoteTable aliasName else e.quote aliasName)
  | none => e.wrapUnaliased name.toList

def wrap (name : String) : Except CompileError String :=
  e.wrapAliased name false

/-- A selector in Postgres that keeps the value a document. -/
def jsonDocument (selector : String) : Except CompileError String :=
  (e.wrap selector).map (Text.onString Text.blurArrows)

/-- The expression for a selected value that is compared with a boolean. -/
def jsonBooleanSelector (selector : String) : Except CompileError String :=
  match e.dialect with
  | .mysql =>
    let (field, path) := e.fieldAndPath selector
    .ok ("json_extract(" ++ field ++ path ++ ")")
  | .postgres => (e.jsonDocument selector).map fun document => "(" ++ document ++ ")::jsonb"
  | .generic | .sqlite | .sqlserver => e.jsonSelector selector

/-- The boolean itself. -/
def jsonBooleanValue (value : String) : String :=
  match e.dialect with
  | .postgres => "'" ++ value ++ "'::jsonb"
  | .sqlserver => "'" ++ value ++ "'"
  | .generic | .mysql | .sqlite => value

end Engine

end SqlCompiler
