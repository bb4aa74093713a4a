import SqlCompiler.Engine.Assignment
import SqlCompiler.Engine.Insert
import SqlCompiler.Engine.Select
/-!
# Updates, deletes and truncation

Where a dialect has no joins or limits in a write, the write goes to the rows whose identity a
select statement yields.
-/

namespace SqlCompiler

namespace Engine

variable (e : Engine)

/-- A statement as a whole: nothing blank at its end, its with-expressions in front. -/
def finished (c : Clauses Compiled) (sql : Sql) : Outcome :=
  e.withCtes c.ctes sql.trimEnd

/-- The name of the identity of a row, where writes with joins or limits go by it. -/
def rowId? : Option String :=
  match e.dialect with
  | .postgres => some "ctid"
  | .sqlite => some "rowid"
  | .generic | .mysql | .sqlserver => none

/-- The identities of the rows of a query. -/
def rowIdSelect (c : Clauses Compiled) (rowId : String) : Outcome := do
  let target ← targetAlias c.source
  e.selectSql { c with columns := some [.name (target ++ "." ++ rowId)], ctes := [] }

/-- The identity by which a write picks its rows, if it does. -/
def byRowId? (c : Clauses Compiled) : Option String :=
  if c.joins.isEmpty && c.limit.isNone then none else e.rowId?

/-- MySQL orders and limits the rows of a write without joins. -/
def withOrdersAndLimit (c : Clauses Compiled) (sql : Sql) : Outcome := do
  let orders ← e.orderList c.orders
  let limit : Sql := match c.limit with
    | some limit => "limit " ++ natText limit
    | none => .empty
  return Sql.join " " (sql.trimEnd :: [orders, limit].filter fun part => !part.isEmpty)

/-- How a joined write refers to its table. -/
def reference (table : Sql) : String :=
  Name.referredTo table.text

def updateWithoutJoins (c : Clauses Compiled) (table columns wheres : Sql) : Outcome :=
  let sql := "update " ++ table ++ " set " ++ columns ++ " " ++ wheres
  if e.dialect = .mysql then e.withOrdersAndLimit c sql else .ok sql

def updateWithJoins (c : Clauses Compiled) (table columns wheres : Sql) : Outcome := do
  let joins ← e.joinsSql c.joins
  if e.dialect = .sqlserver then
    return "update " ++ Sql.ofText (reference table) ++ " set " ++ columns ++ " from " ++ table
      ++ " " ++ joins ++ " " ++ wheres
  return "update " ++ table ++ " " ++ joins ++ " set " ++ columns ++ " " ++ wheres

def updateSql (c : Clauses Compiled) (values : Row) : Outcome := do
  let table ← e.target c.source
  let columns ← e.setList values
  match e.byRowId? c with
  | some rowId =>
    let name ← e.wrap rowId
    let select ← e.rowIdSelect c rowId
    e.finished c
      ("update " ++ table ++ " set " ++ columns ++ " where " ++ name ++ " in (" ++ select ++ ")")
  | none =>
    let wheres ← e.wheresSql c.wheres
    let sql ←
      if c.joins.isEmpty then e.updateWithoutJoins c table columns wheres
      else e.updateWithJoins c table columns wheres
    e.finished c sql

/-- The conditions of an update with its joined tables behind `from`: those of the query, then
those of the joins, each with its conjunction. -/
def updateFromWheres (c : Clauses Compiled) : Outcome := do
  let own ← e.wheresSql c.wheres
  let tests := c.joins.flatMap fun j => j.clause.wheres
  let tail ← joinOutcomes " " (tests.map tied)
  let alone ← conditions tests
  return if tail.isEmpty then own
    else if own.isEmpty then "where " ++ alone
    else own ++ " " ++ tail

def updateFromSql (c : Clauses Compiled) (values : Row) : Outcome :=
  match e.dialect with
  | .postgres => do
    let table ← e.target c.source
    let columns ← e.setList values
    let tables ← joinOutcomes ", " (c.joins.map fun j => e.table j.table)
    let froms : Sql := if c.joins.isEmpty then .empty else " from " ++ tables
    let wheres ← e.updateFromWheres c
    e.finished c ("update " ++ table ++ " set " ++ columns ++ froms ++ " " ++ wheres)
  | .generic | .mysql | .sqlite | .sqlserver => .error (.unsupported .updateFrom)

/-- SQL Server limits a delete before its table. -/
def deleteVerb (c : Clauses Compiled) : String :=
  match e.dialect, c.limit with
  | .sqlserver, some limit =>
    if limit > 0 ∧ c.offset.getD 0 = 0 then "delete top (" ++ natText limit ++ ")" else "delete"
  | _, _ => "delete"

def deleteWithoutJoins (c : Clauses Compiled) (table wheres : Sql) : Outcome :=
  let sql := e.deleteVerb c ++ " from " ++ table ++ " " ++ wheres
  if e.dialect = .mysql then e.withOrdersAndLimit c sql else .ok sql

def deleteWithJoins (c : Clauses Compiled) (table wheres : Sql) : Outcome := do
  let joins ← e.joinsSql c.joins
  return "delete " ++ Sql.ofText (reference table) ++ " from " ++ table ++ " " ++ joins ++ " "
    ++ wheres

def deleteSql (c : Clauses Compiled) : Outcome := do
  let table ← e.target c.source
  match e.byRowId? c with
  | some rowId =>
    let name ← e.wrap rowId
    let select ← e.rowIdSelect c rowId
    e.finished c ("delete from " ++ table ++ " where " ++ name ++ " in (" ++ select ++ ")")
  | none =>
    let wheres ← e.wheresSql c.wheres
    let sql ←
      if c.joins.isEmpty then e.deleteWithoutJoins c table wheres
      else e.deleteWithJoins c table wheres
    e.finished c sql

/-- The statements that empty a table. SQLite also forgets the last key. -/
def truncateSql (source : Option (Term Compiled)) : Except CompileError (List Sql) :=
  match e.dialect with
  | .generic | .mysql | .sqlserver => do
    let table ← e.target source
    return ["truncate table " ++ table]
  | .postgres => do
    let table ← e.target source
    return ["truncate " ++ table ++ " restart identity cascade"]
  | .sqlite =>
    match source with
    | some (.name name) =>
      let plain := match Name.splitAlias? name.toList with
        | some (table, _) => String.ofList table
        | none => name
      .ok ["delete from sqlite_sequence where name = "
          ++ Sql.ofParam (.value (.text (e.settings.tablePrefix ++ plain))),
        "delete from " ++ Sql.ofText (e.wrapTable name)]
    | _ => .error (.invalid .unnamedTruncation)

end Engine

end SqlCompiler
