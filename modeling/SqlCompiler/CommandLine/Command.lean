import SqlCompiler.CommandLine.Arguments
import SqlCompiler.Statement
import SqlCompiler.Stored.Decode
/-!
# The commands

`compile` reads a description of a query and prints a statement; `inline` writes values into a
statement. A command is read from arguments and environment; what it does depends only on the
texts of its files.
-/

namespace SqlCompiler.CommandLine

inductive StatementKind where
  | select | hasRows | insert | update | delete
deriving DecidableEq, Repr

def StatementKind.ofName? : String → Option StatementKind
  | "select" => some .select
  | "exists" => some .hasRows
  | "insert" => some .insert
  | "update" => some .update
  | "delete" => some .delete
  | _ => none

inductive Task where
  | compile (kind : StatementKind) (inlined : Bool) (file : String)
  | inline (sql bindings : String)

structure Command where
  config : Option String
  tablePrefix : Option String
  upsertAlias : Bool
  dialect : Dialect
  task : Task

/-- How a command ends: with output, with the text of an error, or because it was not understood. -/
inductive Result where
  | printed (output : String)
  | failed (message : String)
  | misused
deriving DecidableEq, Repr

def globalOptions : List OptionSpec :=
  [{ long := "config", short := some 'c' }, { long := "prefix", short := some 'p' },
    { long := "upsert-alias", takesValue := false },
    { long := "verbose", short := some 'v', takesValue := false }]

def compileOptions : List OptionSpec :=
  [{ long := "dialect", short := some 'd' }, { long := "statement", short := some 's' },
    { long := "inline", takesValue := false }]

def inlineOptions : List OptionSpec :=
  [{ long := "dialect", short := some 'd' }, { long := "sql" }, { long := "bindings" }]

def readTask? (name : String) (arguments : List String) : Option (Dialect × Task) := do
  let specs ← match name with
    | "compile" => some compileOptions
    | "inline" => some inlineOptions
    | _ => none
  let (a, _) ← readArguments? specs false {} arguments
  let dialect ← (Dialect.ofAlias ((a.value? "dialect").getD "generic")).toOption
  if name = "compile" then
    let kind ← StatementKind.ofName? ((a.value? "statement").getD "select")
    match a.words with
    | [file] => if file = "" then none else some (dialect, .compile kind (a.has "inline") file)
    | _ => none
  else
    let sql ← a.value? "sql"
    if a.words.isEmpty then some (dialect, .inline sql ((a.value? "bindings").getD "[]")) else none

def flag? : Option String → Option Bool
  | none => some false
  | some "true" => some true
  | some "false" => some false
  | some _ => none

/-- The command of some arguments. Options go before the environment. -/
def Command.read? (arguments : List String) (environment : String → Option String) :
    Option Command := do
  let (a, rest) ← readArguments? globalOptions true {} arguments
  let (name, rest) ← match rest with
    | name :: rest => some (name, rest)
    | [] => none
  let (dialect, task) ← readTask? name rest
  let config := (a.value? "config").or (environment "OXIDE_GRAMMAR_CONFIG")
  let tablePrefix := (a.value? "prefix").or (environment "OXIDE_GRAMMAR_PREFIX")
  let upsertAlias ←
    if a.has "upsert-alias" then some true
    else flag? (environment "OXIDE_GRAMMAR_UPSERT_ALIAS")
  if config = some "" then none
  else some { config, tablePrefix, upsertAlias, dialect, task }

def Command.files (c : Command) : List String :=
  c.config.toList ++
    match c.task with
    | .compile _ _ file => [file]
    | .inline _ _ => []

/-! ### Running -/

/-- A query with the rows to insert and the values to set. -/
structure Description where
  query : Query
  rows : List Row
  values : Row

def Description.ofStored? (j : Json) : Option Description := do
  let members ← j.record? Place.description.names
  let query ← members.required "query" (Query.ofStored? .direct)
  let rows ← members.optional "rows" [] (Json.list? Row.ofStored?)
  let values ← members.optional "values" .empty Row.ofStored?
  return { query, rows, values }

def Command.settings (c : Command) (file : String → Option String) : Except String Settings := do
  let settings : Settings ← match c.config with
    | none => .ok {}
    | some path =>
      match file path with
      | none => .error ("Failed to read config " ++ path)
      | some text =>
        match Place.settings.read? Settings.ofStored? text with
        | none => .error ("Invalid config " ++ path)
        | some settings => .ok settings
  return {
    tablePrefix := c.tablePrefix.getD settings.tablePrefix
    upsertAlias := c.upsertAlias || settings.upsertAlias }

def Description.load (file : String → Option String) (path : String) : Except String Description :=
  match file path with
  | none => .error ("Failed to read " ++ path)
  | some text =>
    match Place.description.read? Description.ofStored? text with
    | none => .error ("Invalid description " ++ path)
    | some description => .ok description

def Description.statement (d : Description) (e : Engine) :
    StatementKind → Except CompileError Statement
  | .select => e.select d.query
  | .hasRows => e.hasRows d.query
  | .insert => e.insert d.query d.rows
  | .update => e.update d.query d.values
  | .delete => e.delete d.query

/-- The statement with its values in it, or on a line of their own. -/
def printed (e : Engine) (inlined : Bool) (s : Statement) : String :=
  if inlined then e.inline s.sql.text s.bindings
  else s.sql.text ++ "\n" ++ (Json.arr (s.bindings.map Binding.toDocument)).text

def Task.run (e : Engine) (file : String → Option String) : Task → Except String String
  | .compile kind inlined path => do
    let description ← Description.load file path
    match description.statement e kind with
    | .ok s => .ok (printed e inlined s)
    | .error err => .error err.message
  | .inline sql bindings =>
    match Place.whole.read? readBindings? bindings with
    | some bindings => .ok (e.inline sql bindings)
    | none => .error "Bindings must be a JSON array"

def Command.run (c : Command) (file : String → Option String) : Result :=
  let output : Except String String := do
    let settings ← c.settings file
    c.task.run { dialect := c.dialect, settings } file
  match output with
  | .ok text => .printed (text ++ "\n")
  | .error message => .failed message

/-- What arguments, environment and files come to. -/
def respond (arguments : List String) (environment file : String → Option String) : Result :=
  match Command.read? arguments environment with
  | some command => command.run file
  | none => .misused

end SqlCompiler.CommandLine
