import SqlCompiler.Engine.Compiled
import SqlCompiler.Text.LowerCase
/-!
# Conditions

The text of where and having conditions. A question mark in an operator is written twice, so that
no engine takes it for a placeholder.
-/

namespace SqlCompiler

def DatePart.sql : DatePart → String
  | date => "date"
  | time => "time"
  | day => "day"
  | month => "month"
  | year => "year"

/-- The format that takes a part out of a date. -/
def DatePart.format : DatePart → String
  | date => "%Y-%m-%d"
  | time => "%H:%M:%S"
  | day => "%d"
  | month => "%m"
  | year => "%Y"

/-- An operator with its question marks written twice. -/
def escapeOperator (operator : String) : String :=
  Text.onString (Text.doubled '?') operator

def negate (negated : Bool) (sql : Sql) : Sql :=
  if negated then "not (" ++ sql ++ ")" else sql

/-- The languages that full-text search knows; any other text is searched as English. -/
def fulltextLanguages : List String :=
  ["simple", "arabic", "danish", "dutch", "english", "finnish", "french", "german", "hungarian",
    "indonesian", "irish", "italian", "lithuanian", "nepali", "norwegian", "portuguese",
    "romanian", "russian", "spanish", "swedish", "tamil", "turkish"]

namespace Engine

variable (e : Engine)

def bitwiseOperators : List String :=
  match e.dialect with
  | .postgres => ["&", "|", "^", "#", "<<", ">>", "<<=", ">>=", "&~"]
  | .generic | .mysql | .sqlite | .sqlserver => ["&", "|", "^", "<<", ">>", "&~"]

/-- Postgres compares with `like` only what is text. -/
def comparison (column : Term Compiled) (operator : String) (value : Param) : Outcome := do
  let column ← e.column column
  if e.dialect = .postgres ∧ Text.contains "like".toList (Text.lowerCase operator).toList then
    return column ++ "::text " ++ operator ++ " " ++ Sql.ofParam value
  return column ++ " " ++ escapeOperator operator ++ " " ++ Sql.ofParam value

/-- A comparison of bits, made a truth value where the engine wants one. -/
def bitwise (column : Term Compiled) (operator : String) (value : Param) : Outcome :=
  match e.dialect with
  | .postgres => do
    let column ← e.column column
    return "(" ++ column ++ " " ++ escapeOperator operator ++ " " ++ Sql.ofParam value ++ ")::bool"
  | .sqlserver => do
    let column ← e.column column
    return "(" ++ column ++ " " ++ operator ++ " " ++ Sql.ofParam value ++ ") != 0"
  | .generic | .mysql | .sqlite => e.comparison column operator value

def nullKeyword (negated : Bool) : String :=
  if negated then "is not null" else "is null"

/-- MySQL tells the null of a document from the absence of a value. -/
def nullTest (column : Term Compiled) (negated : Bool) : Outcome :=
  let plain : Outcome := do
    let column ← e.column column
    return column ++ " " ++ nullKeyword negated
  match e.dialect, column with
  | .mysql, .name name =>
    if Text.hasArrow name.toList then
      let (field, path) := e.fieldAndPath name
      let extract := "json_extract(" ++ field ++ path ++ ")"
      let sql :=
        if negated then "(" ++ extract ++ " is not null AND json_type(" ++ extract ++ ") != 'NULL')"
        else "(" ++ extract ++ " is null OR json_type(" ++ extract ++ ") = 'NULL')"
      .ok sql
    else plain
  | _, _ => plain

def dateTest (part : DatePart) (column : Term Compiled) (operator : String) (value : Param) :
    Outcome := do
  let column ← e.column column
  let value := Sql.ofParam value
  let extracted : Sql :=
    match e.dialect, part with
    | .postgres, .date => column ++ "::date"
    | .postgres, .time => column ++ "::time"
    | .postgres, _ => "extract(" ++ part.sql ++ " from " ++ column ++ ")"
    | .sqlite, _ => "strftime('" ++ part.format ++ "', " ++ column ++ ")"
    | .sqlserver, .date => "cast(" ++ column ++ " as date)"
    | .sqlserver, .time => "cast(" ++ column ++ " as time)"
    | _, _ => part.sql ++ "(" ++ column ++ ")"
  let compared : Sql := if e.dialect = .sqlite then "cast(" ++ value ++ " as text)" else value
  return extracted ++ " " ++ operator ++ " " ++ compared

def jsonBooleanTest (selector operator : String) (value : Bool) : Except CompileError String := do
  let selected ← e.jsonBooleanSelector selector
  return selected ++ " " ++ operator ++ " " ++
    e.jsonBooleanValue (if value then "true" else "false")

def jsonContainsTest (selector : String) (value : Sql) : Outcome :=
  let (field, path) := e.fieldAndPath selector
  match e.dialect with
  | .generic | .sqlite => .error (.unsupported .jsonContains)
  | .mysql => .ok ("json_contains(" ++ field ++ ", " ++ value ++ path ++ ")")
  | .postgres => do
    let document ← e.jsonDocument selector
    return "(" ++ document ++ ")::jsonb @> " ++ value
  | .sqlserver =>
    .ok ("json_value(concat('[', " ++ value ++ ", ']'), '$[0]') in (select [value] from openjson("
      ++ field ++ path ++ "))")

/-- The last segment of a Postgres key test as an index, with the segments before it. -/
def indexSelector? (before : List (List Char)) (last : List Char) :
    Option (List (List Char) × Int) :=
  match JsonPath.integer? last with
  | some i => some (before, i)
  | none => do
    let (key, token) ← JsonPath.lastGroup? last
    let i ← JsonPath.integer? token
    return (before ++ [key], i)

/-- Whether the selected object has a key, or the selected array an index. -/
def arrowKeyTest (selector : String) : Except CompileError String :=
  let (before, last) := JsonPath.splitLast selector.toList
  match indexSelector? before last with
  | some (segments, i) => do
    let document ← e.jsonDocument (JsonPath.arrowed segments)
    let length := if i < 0 then i.natAbs else i.natAbs + 1
    return "case when jsonb_typeof((" ++ document ++ ")::jsonb) = 'array' then jsonb_array_length(("
      ++ document ++ ")::jsonb) >= " ++ natText length ++ " else false end"
  | none =>
    if before = [] then .error (.invalid .shortKeyPath)
    else do
      let document ← e.jsonDocument (JsonPath.arrowed before)
      return "coalesce((" ++ document ++ ")::jsonb ?? "
        ++ String.ofList (JsonPath.quotedKey last) ++ ", false)"

/-- The same test by listing the keys of the selected container. -/
def openKeyTest (selector : String) : Except CompileError String :=
  let (before, last) := JsonPath.splitLast selector.toList
  let (segments, key) :=
    match JsonPath.lastGroup? last with
    | some (name, token) =>
      if (Text.natural? token).isSome then (before ++ [name], token)
      else (before, JsonPath.quotedKey last)
    | none => (before, JsonPath.quotedKey last)
  if segments = [] then .error (.invalid .shortKeyPath)
  else
    let (field, path) := e.fieldAndPath (JsonPath.arrowed segments)
    .ok (String.ofList key ++ " in (select [key] from openjson(" ++ field ++ path ++ "))")

def jsonKeyTest (selector : String) : Except CompileError String :=
  let (field, path) := e.fieldAndPath selector
  match e.dialect with
  | .generic => .error (.unsupported .jsonContainsKey)
  | .mysql => .ok ("ifnull(json_contains_path(" ++ field ++ ", 'one'" ++ path ++ "), 0)")
  | .postgres => e.arrowKeyTest selector
  | .sqlite => .ok ("json_type(" ++ field ++ path ++ ") is not null")
  | .sqlserver => e.openKeyTest selector

def jsonLengthTest (selector operator : String) (value : Sql) : Outcome :=
  let (field, path) := e.fieldAndPath selector
  let compared (length : String) : Outcome := .ok (length ++ " " ++ operator ++ " " ++ value)
  match e.dialect with
  | .generic => .error (.unsupported .jsonLength)
  | .mysql => compared ("json_length(" ++ field ++ path ++ ")")
  | .postgres => do
    let document ← e.jsonDocument selector
    compared ("jsonb_array_length((" ++ document ++ ")::jsonb)")
  | .sqlite => compared ("json_array_length(" ++ field ++ path ++ ")")
  | .sqlserver => compared ("(select count(*) from openjson(" ++ field ++ path ++ "))")

/-- Query expansion only goes with natural language. -/
def matchTest (columns : List (Term Compiled)) (value : Param) (options : FulltextOptions) :
    Outcome := do
  let boolean : Bool := options.mode = some "boolean"
  let mode := if boolean then " in boolean mode" else " in natural language mode"
  let expansion := if options.expanded && !boolean then " with query expansion" else ""
  let columns ← e.columnList columns
  return "match (" ++ columns ++ ") against (" ++ Sql.ofParam value ++ mode ++ expansion ++ ")"

def vectorTest (columns : List (Term Compiled)) (value : Param) (options : FulltextOptions) :
    Outcome := do
  let language := match options.language with
    | some language => if language ∈ fulltextLanguages then language else "english"
    | none => "english"
  let vectors ← joinOutcomes " || " <| columns.map fun column =>
    (e.column column).map fun column => "to_tsvector('" ++ language ++ "', " ++ column ++ ")"
  let function := match options.mode with
    | some "phrase" => "phraseto_tsquery"
    | some "websearch" => "websearch_to_tsquery"
    | _ => "plainto_tsquery"
  return "(" ++ vectors ++ ") @@ " ++ function ++ "('" ++ language ++ "', " ++ Sql.ofParam value
    ++ ")"

def fulltextTest (columns : List (Term Compiled)) (value : Param) (options : FulltextOptions) :
    Outcome :=
  match e.dialect with
  | .mysql => e.matchTest columns value options
  | .postgres => e.vectorTest columns value options
  | .generic | .sqlite | .sqlserver => .error (.unsupported .fulltext)

/-- What a test for membership in an empty list comes to. -/
def emptyListTest (negated : Bool) : Sql :=
  if negated then "1 = 1" else "0 = 1"

def listTest (column : Term Compiled) (negated : Bool) (values : Sql) : Outcome := do
  let column ← e.column column
  return column ++ (if negated then " not in (" else " in (") ++ values ++ ")"

def betweenKeyword (negated : Bool) : String :=
  if negated then " not between " else " between "

def rangeTest (column : Term Compiled) (negated : Bool) (low high : Param) : Outcome := do
  let column ← e.column column
  return column ++ betweenKeyword negated ++ Sql.ofParam low ++ " and " ++ Sql.ofParam high

/-- A group of conditions in parentheses. -/
def group (flaw : Flaw) (negated : Bool) (members : List (Conjunction × Outcome)) : Outcome := do
  let sql ← conditions members
  if sql.isEmpty then .error (.invalid flaw)
  else return (if negated then "not " else "") ++ sql.parenthesized

/-! ### Where and having -/

def whereTest (negated : Bool) : Predicate Compiled → Outcome
  | .basic column operator value =>
    if operator ∈ e.bitwiseOperators then (e.bitwise column operator value).map (negate negated)
    else (e.comparison column operator value).map (negate negated)
  | .raw sql bindings => .ok (negate negated (.ofFragment sql bindings))
  | .expression sql => .ok (negate negated sql)
  | .bitwise column operator value => (e.bitwise column operator value).map (negate negated)
  | .among column values =>
    if values.isEmpty then .ok (emptyListTest negated)
    else e.listTest column negated (paramList values)
  | .amongIntegers column values =>
    if values.isEmpty then .ok (emptyListTest negated)
    else e.listTest column negated (Sql.join ", " (values.map fun n => Sql.ofText (intText n)))
  | .null column => e.nullTest column negated
  | .between column low high => e.rangeTest column negated low high
  | .betweenColumns column low high => do
    let column ← e.column column
    let low ← e.column low
    let high ← e.column high
    return column ++ betweenKeyword negated ++ low ++ " and " ++ high
  | .datePart part column operator value =>
    (e.dateTest part column operator value).map (negate negated)
  | .compareColumns first operator second => do
    let first ← e.column first
    let second ← e.column second
    return negate negated (first ++ " " ++ operator ++ " " ++ second)
  | .nested query => group .emptyWhereGroup negated query.wheres
  | .sub column operator query => do
    let column ← e.column column
    let select ← query.select
    return negate negated (column ++ " " ++ operator ++ " " ++ select.parenthesized)
  | .hasRows query => do
    let select ← query.select
    return (if negated then "not exists " else "exists ") ++ select.parenthesized
  | .rowValues columns operator values =>
    if columns.length ≠ values.length then .error (.invalid .rowValueCount)
    else do
      let columns ← e.columnList columns
      return negate negated
        (columns.parenthesized ++ " " ++ operator ++ " " ++ (paramList values).parenthesized)
  | .jsonBoolean column operator value =>
    (e.jsonBooleanTest column operator value).map fun sql => negate negated sql
  | .jsonContains column document =>
    (e.jsonContainsTest column (.ofParam (.value (.text document.text)))).map fun sql =>
      (if negated then "not " else "") ++ sql
  | .jsonContainsKey column =>
    (e.jsonKeyTest column).map fun sql => Sql.ofText ((if negated then "not " else "") ++ sql)
  | .jsonLength column operator value =>
    (e.jsonLengthTest column operator (.ofParam value)).map (negate negated)
  | .fulltext columns value options =>
    (e.fulltextTest columns value options).map (negate negated)

def whereClause (w : Where Compiled) : Conjunction × Outcome :=
  (w.conjunction, e.whereTest w.negated w.predicate)

def havingBitwise (column : Term Compiled) (operator : String) (value : Param) : Outcome := do
  let column ← e.column column
  return "(" ++ column ++ " " ++ operator ++ " " ++ Sql.ofParam value ++ ") != 0"

def havingTest (negated : Bool) : GroupPredicate Compiled → Outcome
  | .basic column operator value =>
    if operator ∈ e.bitwiseOperators then
      (e.havingBitwise column operator value).map (negate negated)
    else do
      let column ← e.column column
      return negate negated (column ++ " " ++ operator ++ " " ++ Sql.ofParam value)
  | .raw sql bindings => .ok (negate negated (.ofFragment sql bindings))
  | .expression sql => .ok (negate negated sql)
  | .between column low high => e.rangeTest column negated low high
  | .null column => do
    let column ← e.column column
    return column ++ " " ++ nullKeyword negated
  | .nested query => group .emptyHavingGroup negated query.havings
  | .bitwise column operator value =>
    (e.havingBitwise column operator value).map (negate negated)

def havingClause (h : Having Compiled) : Conjunction × Outcome :=
  (h.conjunction, e.havingTest h.negated h.predicate)

end Engine

end SqlCompiler
