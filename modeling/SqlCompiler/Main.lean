import SqlCompiler.CommandLine.Command
/-!
# The program

Reads arguments, environment and files, and prints what the command yields.
-/

open SqlCompiler CommandLine

def readText (path : String) : IO (Option String) := do
  try
    return some (← IO.FS.readFile path)
  catch _ =>
    return none

def environmentNames : List String :=
  ["OXIDE_GRAMMAR_CONFIG", "OXIDE_GRAMMAR_PREFIX", "OXIDE_GRAMMAR_UPSERT_ALIAS"]

def main (arguments : List String) : IO UInt32 := do
  let environment ← environmentNames.mapM fun name => return (name, ← IO.getEnv name)
  let lookup (name : String) : Option String :=
    (environment.find? fun (other, _) => other = name).bind Prod.snd
  let paths := ((Command.read? arguments lookup).map Command.files).getD []
  let texts ← paths.mapM fun path => return (path, ← readText path)
  let file (path : String) : Option String :=
    (texts.find? fun (other, _) => other = path).bind Prod.snd
  match respond arguments lookup file with
  | .printed output =>
    IO.print output
    return 0
  | .failed message =>
    IO.eprintln ("Error: " ++ message)
    return 1
  | .misused =>
    IO.eprintln "usage: [OPTIONS] compile|inline ..."
    return 2
