import SqlCompiler.Dialect
import SqlCompiler.Name.Alias
/-!
# Quoted names

Every part of a name is put between the quotes of its dialect, and a closing quote inside is
written twice; a star stays bare. Table names get the prefix of the engine.
-/

namespace SqlCompiler

structure QuoteMarks where
  opening : Char
  closing : Char
deriving DecidableEq, Repr

def Dialect.quoteMarks : Dialect → QuoteMarks
  | generic | postgres | sqlite => ⟨'"', '"'⟩
  | mysql => ⟨'\x60', '\x60'⟩
  | sqlserver => ⟨'[', ']'⟩

/-- A part of a name between quotes. -/
def QuoteMarks.quote (q : QuoteMarks) (part : List Char) : List Char :=
  if part = ['*'] then ['*']
  else q.opening :: (Text.doubled q.closing part ++ [q.closing])

/-- Quoted parts with dots between them. -/
def Name.dotted (parts : List (List Char)) : List Char :=
  ['.'].intercalate parts

def Name.aliased (target aliasName : List Char) : List Char :=
  target ++ " as ".toList ++ aliasName

namespace Engine

variable (e : Engine)

def quote (part : List Char) : List Char :=
  e.dialect.quoteMarks.quote part

def quoteTable (part : List Char) : List Char :=
  e.quote (e.settings.tablePrefix.toList ++ part)

/-- The parts of a table name without alias: schemas, then the table. -/
def tableParts : List (List Char) → List (List Char)
  | [] => []
  | [table] => [e.quoteTable table]
  | schema :: rest => e.quote schema :: tableParts rest

/-- The parts of a column name without alias: if there are several, the first is a table. -/
def columnParts : List (List Char) → List (List Char)
  | [] => []
  | [column] => [e.quote column]
  | table :: rest => e.quoteTable table :: rest.map e.quote

def plainTable (name : List Char) : List Char :=
  Name.dotted (e.tableParts (Text.splitOn '.' name))

def plainColumn (name : List Char) : List Char :=
  Name.dotted (e.columnParts (Text.splitOn '.' name))

/-- A table name; its alias gets the prefix too. -/
def wrapTable (name : String) : String :=
  String.ofList <|
    match Name.splitAlias? name.toList with
    | some (table, aliasName) => Name.aliased (e.plainTable table) (e.quoteTable aliasName)
    | none => e.plainTable name.toList

/-- A column name that holds no arrow, with or without alias. -/
def wrapField (name : List Char) : String :=
  String.ofList <|
    match Name.splitAlias? name with
    | some (column, aliasName) => Name.aliased (e.plainColumn column) (e.quote aliasName)
    | none => e.plainColumn name

def wrapValue (part : String) : String :=
  String.ofList (e.quote part.toList)

end Engine

end SqlCompiler
