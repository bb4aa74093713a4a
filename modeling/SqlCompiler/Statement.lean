import SqlCompiler.Engine.Update
import SqlCompiler.Query.Bindings
import SqlCompiler.Substitute
/-!
# Statements

A statement is compiled SQL with the values to bind. The values come from the query, category by
category; writes put theirs where their dialect emits them.
-/

namespace SqlCompiler

structure Statement where
  sql : Sql
  bindings : List Binding

/-- The clauses of a query with the bindings of their nested queries. -/
def Query.bindingClauses (q : Query) : Clauses BindingLists :=
  q.clauses.map Query.bindingLists

namespace Engine

variable (e : Engine)

/-- SQL Server selects a constant instead of the columns. -/
def existsBindings (q : Query) : List Binding :=
  match e.dialect with
  | .sqlserver => q.bindingLists.flattenExcept [.select]
  | .generic | .mysql | .postgres | .sqlite => q.bindings

def insertBindings (rows : List Row) : Except CompileError (List Binding) :=
  (AlignedRows.ofRows rows).map AlignedRows.bindings

/-- Generic SQL and MySQL write the joins before the set list, the others after it. -/
def updateBindings (q : Query) (values : Row) : Except CompileError (List Binding) := do
  let lists := q.bindingLists
  let set ← e.setList values
  let before : List BindingCategory :=
    match e.dialect with
    | .generic | .mysql => [.unionCtes, .ctes, .source, .join]
    | .postgres | .sqlite | .sqlserver => [.unionCtes, .ctes]
  return lists.flattenOnly before ++ set.bindings ++ lists.flattenExcept (.select :: before)

def updateFromBindings (q : Query) (values : Row) : Except CompileError (List Binding) :=
  match e.dialect with
  | .postgres => do
    let lists := q.bindingLists
    let joins := q.bindingClauses.joins
    let set ← e.setList values
    return lists.flattenOnly [.unionCtes, .ctes, .source] ++ set.bindings
      ++ joins.flatMap (fun j => j.table.bindings) ++ lists.wheres
      ++ joins.flatMap (fun j => j.clause.wheres)
  | .generic | .mysql | .sqlite | .sqlserver => .error (.unsupported .updateFrom)

def deleteBindings (q : Query) : List Binding :=
  q.bindingLists.flattenExcept [.select]

def upsertBindings (rows : List Row) (update : List UpsertAssignment) :
    Except CompileError (List Binding) :=
  (insertBindings rows).map fun bindings => bindings ++ update.flatMap UpsertAssignment.bindings

def select (q : Query) : Except CompileError Statement := do
  let sql ← (q.compiled e).select
  return { sql, bindings := q.bindings }

def hasRows (q : Query) : Except CompileError Statement := do
  let sql ← e.existsSql (q.compiledClauses e)
  return { sql, bindings := e.existsBindings q }

def insert (q : Query) (rows : List Row) : Except CompileError Statement := do
  let sql ← e.insertSql "insert" (q.compiledClauses e).source rows
  let bindings ← insertBindings rows
  return { sql, bindings }

def insertOrIgnore (q : Query) (rows : List Row) : Except CompileError Statement := do
  let sql ← e.insertOrIgnoreSql (q.compiledClauses e).source rows
  let bindings ← insertBindings rows
  return { sql, bindings }

def insertGetId (q : Query) (row : Row) (sequence : Option String) :
    Except CompileError Statement := do
  let sql ← e.insertGetIdSql (q.compiledClauses e).source row sequence
  let bindings ← insertBindings [row]
  return { sql, bindings }

def insertUsing (q : Query) (columns : List String) (source : Query) :
    Except CompileError Statement := do
  let select ← (source.compiled e).select
  let sql ← e.insertUsingSql "insert" (q.compiledClauses e).source columns select
  return { sql, bindings := source.bindings }

def insertOrIgnoreUsing (q : Query) (columns : List String) (source : Query) :
    Except CompileError Statement := do
  let select ← (source.compiled e).select
  let sql ← e.insertOrIgnoreUsingSql (q.compiledClauses e).source columns select
  return { sql, bindings := source.bindings }

def update (q : Query) (values : Row) : Except CompileError Statement := do
  let sql ← e.updateSql (q.compiledClauses e) values
  let bindings ← e.updateBindings q values
  return { sql, bindings }

def updateFrom (q : Query) (values : Row) : Except CompileError Statement := do
  let sql ← e.updateFromSql (q.compiledClauses e) values
  let bindings ← e.updateFromBindings q values
  return { sql, bindings }

def delete (q : Query) : Except CompileError Statement := do
  let sql ← e.deleteSql (q.compiledClauses e)
  return { sql, bindings := deleteBindings q }

def upsert (q : Query) (rows : List Row) (uniqueBy : List String)
    (update : List UpsertAssignment) : Except CompileError Statement := do
  let sql ← e.upsertSql (q.compiledClauses e).source rows uniqueBy update
  let bindings ← upsertBindings rows update
  return { sql, bindings }

/-- Only SQLite binds a value, the name of the table. -/
def truncate (q : Query) : Except CompileError (List Statement) := do
  let statements ← e.truncateSql (q.compiledClauses e).source
  return statements.map fun sql =>
    { sql, bindings := if e.dialect = .sqlite then sql.bindings else [] }

def rawSql (q : Query) : Except CompileError String := do
  let statement ← e.select q
  return e.inline statement.sql.text statement.bindings

end Engine

end SqlCompiler
