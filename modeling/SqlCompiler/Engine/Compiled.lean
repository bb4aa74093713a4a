import SqlCompiler.Engine.Selector
import SqlCompiler.Query.Clause
import SqlCompiler.Sql
/-!
# Compiled parts

What compiling a query yields for the queries around it, and the columns, tables and lists of
conditions that are made of such parts.
-/

namespace SqlCompiler

abbrev Outcome := Except CompileError Sql

/-- What one query compiles to: its select statement, and its joins and conditions one by one for
the places that take only those. -/
structure Compiled where
  select : Outcome
  joins : List Outcome
  wheres : List (Conjunction × Outcome)
  havings : List (Conjunction × Outcome)

def Conjunction.sql : Conjunction → String
  | and => "and"
  | or => "or"

/-- Compiled parts with `sep` between them. -/
def joinOutcomes (sep : String) (parts : List Outcome) : Outcome :=
  (allOk parts).map (Sql.join sep)

/-- A condition with its conjunction in front. -/
def tied (condition : Conjunction × Outcome) : Outcome :=
  condition.2.map fun sql => condition.1.sql ++ " " ++ sql

/-- Conditions tied together. The conjunction of the first has nothing to tie it to. -/
def conditions : List (Conjunction × Outcome) → Outcome
  | [] => .ok .empty
  | (_, first) :: rest => joinOutcomes " " (first :: rest.map tied)

namespace Engine

variable (e : Engine)

def column : Term Compiled → Outcome
  | .name n => (e.wrap n).map Sql.ofText
  | .raw sql bindings => .ok (.ofFragment sql bindings)
  | .sub query aliasName => do
    let select ← query.select
    let aliasName ← e.wrap aliasName
    return select.parenthesized ++ " as " ++ aliasName

def table : Term Compiled → Outcome
  | .name n => .ok (e.wrapTable n)
  | .raw sql bindings => .ok (.ofFragment sql bindings)
  | .sub query aliasName => do
    let select ← query.select
    return select.parenthesized ++ " as " ++ e.wrapTable aliasName

def columnList (columns : List (Term Compiled)) : Outcome :=
  joinOutcomes ", " (columns.map e.column)

def nameList (names : List String) : Outcome :=
  e.columnList (names.map Term.name)

end Engine

def paramList (params : List Param) : Sql :=
  Sql.join ", " (params.map Sql.ofParam)

end SqlCompiler
