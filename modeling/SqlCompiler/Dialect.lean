import SqlCompiler.CompileError
import SqlCompiler.Text.LowerCase
/-!
# Dialects and engines

A dialect is one of five ways to write SQL. An engine is a dialect with its settings.
-/

namespace SqlCompiler

inductive Dialect where
  | generic | mysql | postgres | sqlite | sqlserver
deriving DecidableEq, Repr

namespace Dialect

def name : Dialect → String
  | generic => "generic"
  | mysql => "mysql"
  | postgres => "postgres"
  | sqlite => "sqlite"
  | sqlserver => "sqlserver"

def all : List Dialect := [generic, mysql, postgres, sqlite, sqlserver]

def ofName? (name : String) : Option Dialect :=
  all.find? fun d => d.name = name

theorem ofName?_name (d : Dialect) : ofName? d.name = some d := by
  cases d <;> rfl

/-- The dialect of a common name, in any case of its ASCII letters. -/
def ofAlias (s : String) : Except CompileError Dialect :=
  let word := Text.lowerAscii s
  if word ∈ ["generic", "ansi"] then .ok generic
  else if word ∈ ["mysql", "mariadb"] then .ok mysql
  else if word ∈ ["postgres", "postgresql", "pgsql"] then .ok postgres
  else if word ∈ ["sqlite"] then .ok sqlite
  else if word ∈ ["sqlserver", "sqlsrv", "mssql"] then .ok sqlserver
  else .error (.unsupported (.dialect word))

end Dialect

structure Settings where
  /-- Put in front of every table name, and of the aliases of tables. -/
  tablePrefix : String := ""
  /-- Whether MySQL upserts name the inserted row by an alias. -/
  upsertAlias : Bool := false
deriving DecidableEq, Repr

structure Engine where
  dialect : Dialect
  settings : Settings := {}
deriving DecidableEq, Repr

end SqlCompiler
