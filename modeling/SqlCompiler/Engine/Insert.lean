import SqlCompiler.Engine.Compiled
import SqlCompiler.Row
/-!
# Inserts and upserts

Rows are aligned to the columns of the first one. An upsert is an insert that says what happens to
rows that are there already; SQL Server merges instead.
-/

namespace SqlCompiler

/-- Rows with their values in the order of one list of columns. -/
structure AlignedRows where
  columns : List String
  rows : List (List Param)

namespace AlignedRows

/-- The values of a row in the order of some columns. -/
def align (columns : List String) (row : Row) : Except CompileError (List Param) :=
  if row.entries.length ≠ columns.length then .error (.invalid .insertColumns)
  else allOk <| columns.map fun column =>
    match row.get? column with
    | some value => .ok value
    | none => .error (.invalid (.insertMissing column))

def ofRows : List Row → Except CompileError AlignedRows
  | [] => .ok { columns := [], rows := [] }
  | first :: rest => do
    let rows ← allOk ((first :: rest).map (align first.columns))
    return { columns := first.columns, rows }

def bindings (a : AlignedRows) : List Binding :=
  a.rows.flatMap boundValues

def valuesSql (a : AlignedRows) : Sql :=
  Sql.join ", " (a.rows.map fun row => (paramList row).parenthesized)

end AlignedRows

/-- What an upsert does to a column of a row that is there: take the value of the inserted row, or
a value of its own. -/
inductive UpsertAssignment where
  | inserted (column : String)
  | given (column : String) (value : Param)

namespace UpsertAssignment

def bindings : UpsertAssignment → List Binding
  | inserted _ => []
  | given _ value => boundValues [value]

end UpsertAssignment

namespace Engine

variable (e : Engine)

/-- The table that a statement writes to. -/
def target (source : Option (Term Compiled)) : Outcome :=
  match source with
  | some source => e.table source
  | none => .error (.invalid .noTarget)

def emptyInsert (verb : String) (table : Sql) : Sql :=
  verb ++ " into " ++ table ++
    (if e.dialect = .mysql then " () values ()" else " default values")

/-- An insert that begins with `verb`. -/
def insertSql (verb : String) (source : Option (Term Compiled)) (rows : List Row) : Outcome := do
  let table ← e.target source
  if rows.all Row.isEmpty then return e.emptyInsert verb table
  let aligned ← AlignedRows.ofRows rows
  let columns ← e.nameList aligned.columns
  return verb ++ " into " ++ table ++ " (" ++ columns ++ ") values " ++ aligned.valuesSql

/-- An insert that passes over rows in conflict. -/
def insertOrIgnoreSql (source : Option (Term Compiled)) (rows : List Row) : Outcome :=
  match e.dialect with
  | .generic | .sqlserver => .error (.unsupported .insertOrIgnore)
  | .mysql => e.insertSql "insert ignore" source rows
  | .sqlite => e.insertSql "insert or ignore" source rows
  | .postgres => (e.insertSql "insert" source rows).map fun sql => sql ++ " on conflict do nothing"

/-- An insert of one row that yields its key. -/
def insertGetIdSql (source : Option (Term Compiled)) (row : Row) (sequence : Option String) :
    Outcome :=
  match e.dialect with
  | .generic | .mysql | .sqlite => e.insertSql "insert" source [row]
  | .postgres => do
    let sql ← e.insertSql "insert" source [row]
    let key ← e.wrap (sequence.getD "id")
    return sql ++ " returning " ++ key
  | .sqlserver => do
    let sql ← e.insertSql "insert" source [row]
    let key ← e.wrap (sequence.getD "id")
    return "set nocount on;" ++ sql ++ ";select scope_identity() as " ++ key

/-- An insert of what a select yields. Stars alone name no columns. -/
def insertUsingSql (verb : String) (source : Option (Term Compiled)) (columns : List String)
    (select : Sql) : Outcome := do
  let table ← e.target source
  if columns.all fun column => column = "*" then return verb ++ " into " ++ table ++ " " ++ select
  let columns ← e.nameList columns
  return verb ++ " into " ++ table ++ " (" ++ columns ++ ") " ++ select

def insertOrIgnoreUsingSql (source : Option (Term Compiled)) (columns : List String)
    (select : Sql) : Outcome :=
  match e.dialect with
  | .generic | .sqlserver => .error (.unsupported .insertOrIgnore)
  | .mysql => e.insertUsingSql "insert ignore" source columns select
  | .sqlite => e.insertUsingSql "insert or ignore" source columns select
  | .postgres =>
    (e.insertUsingSql "insert" source columns select).map fun sql =>
      sql ++ " on conflict do nothing"

/-! ### Upserts -/

def upsertAlias : String := "laravel_upsert_alias"

def mergeSource : String := "laravel_source"

def upsertAssignment (inserted : String → Except CompileError String) :
    UpsertAssignment → Outcome
  | .inserted column => do
    let name ← e.wrap column
    let value ← inserted column
    return name ++ " = " ++ Sql.ofText value
  | .given column value => do
    let name ← e.wrap column
    return name ++ " = " ++ Sql.ofParam value

def upsertAssignments (inserted : String → Except CompileError String)
    (update : List UpsertAssignment) : Outcome :=
  joinOutcomes ", " (update.map (e.upsertAssignment inserted))

def insertedBehind (row : String) (column : String) : Except CompileError String := do
  let name ← e.wrap column
  return row ++ "." ++ name

def mysqlUpsert (source : Option (Term Compiled)) (rows : List Row)
    (update : List UpsertAssignment) : Outcome := do
  let insert ← e.insertSql "insert" source rows
  if e.settings.upsertAlias then
    let row ← e.wrap upsertAlias
    let assignments ← e.upsertAssignments (e.insertedBehind row) update
    return insert ++ " as " ++ row ++ " on duplicate key update " ++ assignments
  let assignments ← e.upsertAssignments
    (fun column => do
      let name ← e.wrap column
      return "values(" ++ name ++ ")") update
  return insert ++ " on duplicate key update " ++ assignments

/-- Postgres and SQLite name the inserted row `excluded`. -/
def conflictUpsert (source : Option (Term Compiled)) (rows : List Row) (uniqueBy : List String)
    (update : List UpsertAssignment) : Outcome := do
  if uniqueBy.isEmpty then .error (.invalid .noUniqueColumn)
  let insert ← e.insertSql "insert" source rows
  let unique ← e.nameList uniqueBy
  let assignments ← e.upsertAssignments (e.insertedBehind (e.wrapValue "excluded")) update
  return insert ++ " on conflict (" ++ unique ++ ") do update set " ++ assignments

/-- The name by which a statement refers to its target. -/
def targetAlias (source : Option (Term Compiled)) : Except CompileError String :=
  match source with
  | some (.name name) =>
    .ok <| match Name.splitAlias? name.toList with
      | some (_, aliasName) => String.ofList aliasName
      | none => name
  | some (.sub _ aliasName) => .ok aliasName
  | some (.raw _ _) | none => .error (.invalid .unnamedTarget)

def mergeUpsert (source : Option (Term Compiled)) (rows : List Row) (uniqueBy : List String)
    (update : List UpsertAssignment) : Outcome := do
  if uniqueBy.isEmpty then .error (.invalid .noUniqueColumn)
  let aligned ← AlignedRows.ofRows rows
  if aligned.columns.isEmpty then .error (.invalid .noUpsertRow)
  let there ← targetAlias source
  let columns ← e.nameList aligned.columns
  let table ← e.target source
  let matched ← joinOutcomes " and " <| uniqueBy.map fun column => do
    let merged ← e.wrap (mergeSource ++ "." ++ column)
    let own ← e.wrap (there ++ "." ++ column)
    return merged ++ " = " ++ Sql.ofText own
  let assignments ← e.upsertAssignments
    (fun column => e.wrap (mergeSource ++ "." ++ column)) update
  let updated : Sql :=
    if update.isEmpty then .empty
    else "when matched then update set " ++ assignments ++ " "
  return "merge " ++ table ++ " using (values " ++ aligned.valuesSql ++ ") "
    ++ e.wrapTable mergeSource ++ " (" ++ columns ++ ") on " ++ matched ++ " " ++ updated
    ++ "when not matched then insert (" ++ columns ++ ") values (" ++ columns ++ ");"

def upsertSql (source : Option (Term Compiled)) (rows : List Row) (uniqueBy : List String)
    (update : List UpsertAssignment) : Outcome :=
  match e.dialect with
  | .generic => .error (.unsupported .upserts)
  | .mysql => e.mysqlUpsert source rows update
  | .postgres | .sqlite => e.conflictUpsert source rows uniqueBy update
  | .sqlserver => e.mergeUpsert source rows uniqueBy update

end Engine

end SqlCompiler
